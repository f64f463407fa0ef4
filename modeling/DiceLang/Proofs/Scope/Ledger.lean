import DiceLang.Proofs.Scope.Client

/-! The ledger of a client: an environment that answers the same requests and frees no slot, so that the
number of a scope is its slot. A scope that is still in its slot answers as in the ledger. -/

namespace DiceLang

structure Ledger where
  env : Environment
  roots : List ScopeId
  captures : List Capture

namespace Ledger

def initial : Ledger := ⟨.initial, [Environment.global], []⟩

/-- A release only cuts the stack, and a sweep does nothing. -/
def step (l : Ledger) : Request → Ledger
  | .push parent => { l with env := (l.env.push (parent.map ScopeId.mk)).2 }
  | .pushRoot =>
    let (id, env) := l.env.pushRoot
    ⟨env, id :: l.roots, l.captures⟩
  | .capture i => { l with captures := ⟨⟨i⟩, false⟩ :: l.captures }
  | .duplicate n => { l with captures := l.captures[n]?.toList ++ l.captures }
  | .drop n => { l with captures := l.captures.eraseIdx n }
  | .entrust i n =>
    match l.captures[n]? with
    | some k => ⟨l.env.entrust ⟨i⟩ k, l.roots, l.captures.eraseIdx n⟩
    | none => l
  | .reclaim i n =>
    let (k, env) := l.env.reclaim ⟨i⟩ n
    ⟨env, l.roots, k.toList ++ l.captures⟩
  | .define i name v => { l with env := l.env.define ⟨i⟩ name v }
  | .set i name v => { l with env := l.env.set ⟨i⟩ name v }
  | .release mark => { l with env.arena.stack := l.env.arena.stack.take mark }
  | .sweep => l

def run (l : Ledger) (rs : List Request) : Ledger := rs.foldl step l

def Anchored (l : Ledger) (id : ScopeId) : Prop :=
  id ∈ l.env.arena.stack.toList ∨ id ∈ l.roots ∨ id ∈ l.captures.map Capture.scope

end Ledger

namespace Client

def slotOf (c : Client) (id : ScopeId) : ScopeId := c.slot id.index

/-- The scope that has the slot `id` in the ledger has not been freed: its slot is occupied, and no later
scope came into it. -/
def Present (c : Client) (id : ScopeId) : Prop :=
  id.index < c.scopes.length ∧ (c.env.arena.scope? (c.slotOf id)).isSome ∧
    ∀ j < c.scopes.length, id.index < j → c.slot j ≠ c.slotOf id

instance (c : Client) (id : ScopeId) : Decidable (c.Present id) :=
  inferInstanceAs (Decidable (_ ∧ _ ∧ _))

def NamesPresent : Client → List Request → Prop
  | _, [] => True
  | c, r :: rs => (∀ i ∈ r.scopes, c.Present ⟨i⟩) ∧ (c.step r).NamesPresent rs

instance decidableNamesPresent : (c : Client) → (rs : List Request) → Decidable (c.NamesPresent rs)
  | _, [] => .isTrue trivial
  | c, r :: rs =>
    have := decidableNamesPresent (c.step r) rs
    inferInstanceAs (Decidable (_ ∧ (c.step r).NamesPresent rs))

inductive Live (c : Client) (l : Ledger) : ScopeId → Prop
  | anchored {id : ScopeId} : l.Anchored id → Live c l id
  | owned {id : ScopeId} {s : Scope} {k : Capture} : c.Present id → l.env.arena.scope? id = some s →
      k ∈ s.owned → Live c l k.scope
  | parent {id p : ScopeId} : Live c l id → l.env.arena.parent id = some p → Live c l p

end Client

namespace Environment

variable {env env' : Environment} {id id' : ScopeId}

def layers (env : Environment) (id : ScopeId) : List MapRef := (env.arena.chain id).map Scope.bindings

def own (env : Environment) (id : ScopeId) : Option MapRef := (env.arena.scope? id).map Scope.bindings

lemma lookup_eq (env : Environment) (id : ScopeId) (name : String) :
    env.lookup id name = (env.layers id).findSome? fun r => Entries.get? (env.heap.entries r) name := by
  rw [layers, List.findSome?_map]
  rfl

lemma heap_define (env : Environment) (id : ScopeId) (name : String) (v : Value) :
    (env.define id name v).heap = (env.own id).elim env.heap fun r =>
      env.heap.setMap r (Entries.put (env.heap.entries r) name v) := by
  rw [define, own]
  cases env.arena.scope? id <;> rfl

lemma heap_set (env : Environment) (id : ScopeId) (name : String) (v : Value) :
    (env.set id name v).heap =
      ((env.layers id).find? fun r => (Entries.get? (env.heap.entries r) name).isSome).elim
        (env.define id name v).heap fun r =>
          env.heap.setMap r (Entries.put (env.heap.entries r) name v) := by
  have hfind : ((env.layers id).find? fun r => (Entries.get? (env.heap.entries r) name).isSome) =
      ((env.arena.chain id).find? fun s => (env.value? name s).isSome).map Scope.bindings := by
    rw [layers, List.find?_map]
    rfl
  rw [set, hfind]
  cases (env.arena.chain id).find? fun s => (env.value? name s).isSome <;> rfl

lemma heap_define_congr (hheap : env.heap = env'.heap) (hown : env.own id = env'.own id')
    (name : String) (v : Value) : (env.define id name v).heap = (env'.define id' name v).heap := by
  rw [heap_define, heap_define, hheap, hown]

lemma heap_set_congr (hheap : env.heap = env'.heap) (hown : env.own id = env'.own id')
    (hlayers : env.layers id = env'.layers id') (name : String) (v : Value) :
    (env.set id name v).heap = (env'.set id' name v).heap := by
  rw [heap_set, heap_set, heap_define_congr hheap hown, hheap, hlayers]

lemma fst_bindings_congr (hheap : env.heap = env'.heap) (hown : env.own id = env'.own id') :
    (env.bindings id).1 = (env'.bindings id').1 := by
  have heq (env : Environment) (id : ScopeId) :
      (env.bindings id).1 = (env.own id).getD (env.heap.newMap []).1 := by
    rw [bindings, own]
    cases env.arena.scope? id <;> rfl
  rw [heq, heq, hheap, hown]

end Environment

def Capture.rename (g : ScopeId → ScopeId) (k : Capture) : Capture := { k with scope := g k.scope }

def Frame.rename (f : Frame) (g : ScopeId → ScopeId) : Frame :=
  { f with parent := f.parent.map g, owned := f.owned.map (.rename g) }

namespace Client

variable {c c' : Client} {l l' : Ledger} {id j p : ScopeId}

lemma Present.occupied (hid : c.Present id) : c.env.arena.frame? (c.slotOf id) ≠ none :=
  Arena.isSome_scope?.mp hid.2.1

lemma Present.injective (hid : c.Present id) (hj : c.Present j) (heq : c.slotOf id = c.slotOf j) :
    id = j := by
  rcases Nat.lt_trichotomy id.index j.index with hlt | hsame | hlt
  · exact absurd heq.symm (hid.2.2 j.index hj.1 hlt)
  · exact ScopeId.index_injective hsame
  · exact absurd heq (hj.2.2 id.index hid.1 hlt)

lemma Present.congr (hid : c.Present id) (hscopes : c'.scopes = c.scopes)
    (hocc : c'.env.arena.frame? (c.slotOf id) ≠ none) : c'.Present id := by
  have hslot (i : Nat) : c'.slot i = c.slot i := by rw [slot, hscopes]; rfl
  refine ⟨hscopes ▸ hid.1, ?_, ?_⟩
  · rw [Arena.isSome_scope?, slotOf, hslot]
    exact hocc
  · simpa only [hscopes, slotOf, hslot] using hid.2.2

structure Mirrors (c : Client) (l : Ledger) : Prop where
  sound : c.Sound
  heap : c.env.heap = l.env.heap
  free : l.env.arena.free = #[]
  full : ∀ i < l.env.arena.slots.size, l.env.arena.frame? ⟨i⟩ ≠ none
  size : c.scopes.length = l.env.arena.slots.size
  layered : l.env.arena.Layered
  stack : c.env.arena.stack.toList = l.env.arena.stack.toList.map c.slotOf
  roots : c.roots = l.roots.map c.slotOf
  captures : c.captures = l.captures.map (.rename c.slotOf)
  anchored : ∀ id, l.Anchored id → c.Present id
  frame : ∀ id, c.Present id → ∃ f, l.env.arena.frame? id = some f ∧
    c.env.arena.frame? (c.slotOf id) = some (f.rename c.slotOf) ∧
    (∀ p ∈ f.parent, c.Present p) ∧ ∀ k ∈ f.owned, c.Present k.scope

namespace Mirrors

lemma present_parent (hm : c.Mirrors l) (hid : c.Present id) (hp : l.env.arena.parent id = some p) :
    c.Present p := by
  obtain ⟨f, hf, -, hparent, -⟩ := hm.frame id hid
  rw [Arena.parent_of_frame hf] at hp
  exact hparent p hp

lemma parent_eq (hm : c.Mirrors l) (hid : c.Present id) :
    c.env.arena.parent (c.slotOf id) = (l.env.arena.parent id).map c.slotOf := by
  obtain ⟨f, hf, hf', -⟩ := hm.frame id hid
  rw [Arena.parent_of_frame hf, Arena.parent_of_frame hf']
  rfl

lemma own_eq (hm : c.Mirrors l) (hid : c.Present id) : c.env.own (c.slotOf id) = l.env.own id := by
  obtain ⟨f, hf, hf', -⟩ := hm.frame id hid
  obtain ⟨s, hs, rfl⟩ := Arena.exists_scope hf
  obtain ⟨t, ht, heq⟩ := Arena.exists_scope hf'
  have hbindings : t.bindings = s.bindings := congrArg Frame.bindings heq
  simp [Environment.own, hs, ht, hbindings]

lemma climbs (hm : c.Mirrors l) (hid : c.Present id) {ids : List ScopeId}
    (hc : l.env.arena.Climbs id ids) :
    c.env.arena.Climbs (c.slotOf id) (ids.map c.slotOf) ∧ ∀ j ∈ ids, c.Present j := by
  induction hc with
  | last _ hp =>
    refine ⟨.last hid.2.1 ?_, by simpa using hid⟩
    rw [hm.parent_eq hid, hp]
    rfl
  | next hp _ ih =>
    obtain ⟨hclimbs, hpresent⟩ := ih (hm.present_parent hid hp)
    refine ⟨.next ?_ hclimbs, List.forall_mem_cons.mpr ⟨hid, hpresent⟩⟩
    rw [hm.parent_eq hid, hp]
    rfl

lemma exists_climbs (hm : c.Mirrors l) (hid : c.Present id) : ∃ ids, l.env.arena.Climbs id ids := by
  obtain ⟨f, hf, -⟩ := hm.frame id hid
  exact hm.layered.exists_climbs (by simp [hf])

lemma root_eq (hm : c.Mirrors l) (hid : c.Present id) :
    c.env.arena.root (c.slotOf id) = c.slotOf (l.env.arena.root id) := by
  obtain ⟨ids, hids⟩ := hm.exists_climbs hid
  have hroot := (hm.climbs hid hids).1.getLast?_eq_root hm.sound.arena.layered
  rw [List.getLast?_map, hids.getLast?_eq_root hm.layered] at hroot
  exact (Option.some.inj hroot).symm

lemma layers_eq (hm : c.Mirrors l) (hid : c.Present id) :
    c.env.layers (c.slotOf id) = l.env.layers id := by
  obtain ⟨ids, hids⟩ := hm.exists_climbs hid
  obtain ⟨hclimbs, hpresent⟩ := hm.climbs hid hids
  have hclient := congrArg (List.map (Option.map Scope.bindings))
    (hclimbs.map_chain hm.sound.arena.layered)
  have hledger := congrArg (List.map (Option.map Scope.bindings)) (hids.map_chain hm.layered)
  have hown : (ids.map c.slotOf).map c.env.own = ids.map l.env.own := by
    rw [List.map_map]
    exact List.map_congr_left fun j hj => hm.own_eq (hpresent j hj)
  refine (List.map_inj_right (f := some) fun _ _ => Option.some.inj).mp ?_
  simp only [Environment.layers, List.map_map] at hclient hledger hown ⊢
  exact hclient.trans (hown.trans hledger.symm)

lemma present_of_live (hm : c.Mirrors l) (hid : c.Live l id) : c.Present id := by
  induction hid with
  | anchored hid => exact hm.anchored _ hid
  | owned hid hs hk =>
    obtain ⟨f, hf, -, -, howned⟩ := hm.frame _ hid
    rw [Arena.frame?, hs, Option.map_some, Option.some.injEq] at hf
    exact howned _ (by rw [← hf]; exact hk)
  | parent _ hp ih => exact hm.present_parent ih hp

end Mirrors

end Client

end DiceLang

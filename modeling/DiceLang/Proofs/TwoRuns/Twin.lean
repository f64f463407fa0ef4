import DiceLang.Proofs.Eval.Bookkeeping
import DiceLang.Proofs.Scope.Tended
import DiceLang.Proofs.TwoRuns.Data

/-! Machines of two runs that differ in the depth, in the slots of their scopes and, where these are not
compared, in the records. -/

namespace DiceLang

structure Pairing where
  /-- The scopes that functions hold and the roots, which are there for good. -/
  lasting : ScopePairs
  /-- Scopes that are there until they are released. -/
  passing : ScopePairs
  left : Array ScopeId
  right : Array ScopeId
  /-- Whether the records of the runs are compared. -/
  records : Prop
  mem_left {s t : ScopeId} : passing s t → s ∈ left
  mem_right {s t : ScopeId} : passing s t → t ∈ right

namespace Pairing

variable {π π' : Pairing} {s t : ScopeId}

structure Grows (π π' : Pairing) : Prop where
  lasting : ∀ s t, π.lasting s t → π'.lasting s t
  passing : π'.passing = π.passing
  left : π'.left = π.left
  right : π'.right = π.right
  records : π'.records = π.records

instance : Preorder Pairing where
  le := Grows
  le_refl _ := ⟨fun _ _ h => h, rfl, rfl, rfl, rfl⟩
  le_trans _ _ _ h h' := ⟨fun s t hst => h'.lasting s t (h.lasting s t hst), h'.passing.trans h.passing,
    h'.left.trans h.left, h'.right.trans h.right, h'.records.trans h.records⟩

lemma Grows.like {α : Type} [Paired α] {a b : α} (h : π.Grows π') (hab : Like π.lasting a b) :
    Like π'.lasting a b :=
  Paired.mono h.lasting hab

def Scopes (π : Pairing) (s t : ScopeId) : Prop := π.lasting s t ∨ π.passing s t

lemma Scopes.mono (h : π ≤ π') (hs : π.Scopes s t) : π'.Scopes s t :=
  hs.imp (h.lasting s t) fun hst => h.passing ▸ hst

def keep (π : Pairing) (s t : ScopeId) : Pairing :=
  { π with lasting := fun j k => π.lasting j k ∨ (j = s ∧ k = t) }

lemma le_keep (π : Pairing) (s t : ScopeId) : π ≤ π.keep s t := ⟨fun _ _ => .inl, rfl, rfl, rfl, rfl⟩

def enter (π : Pairing) (s t : ScopeId) : Pairing where
  lasting := π.lasting
  passing := fun j k => π.passing j k ∨ (j = s ∧ k = t)
  left := π.left.push s
  right := π.right.push t
  records := π.records
  mem_left := by
    rintro j k (h | ⟨rfl, rfl⟩)
    · exact Array.mem_push.mpr (.inl (π.mem_left h))
    · exact Array.mem_push_self
  mem_right := by
    rintro j k (h | ⟨rfl, rfl⟩)
    · exact Array.mem_push.mpr (.inl (π.mem_right h))
    · exact Array.mem_push_self

lemma scopes_enter (π : Pairing) (s t : ScopeId) : (π.enter s t).Scopes s t := .inr (.inr ⟨rfl, rfl⟩)

def leave (π π' : Pairing) : Pairing := { π with lasting := π'.lasting }

lemma le_leave (h : π.enter s t ≤ π') : π ≤ π.leave π' := ⟨h.lasting, rfl, rfl, rfl, rfl⟩

end Pairing

structure Twin (d d' : Nat) (π : Pairing) (m m' : Machine) : Prop where
  depth : m.depth.val = d
  depth' : m'.depth.val = d'
  heap : Heap.Like π.lasting m.env.heap m'.env.heap
  log : π.records → RecordLog.Like π.lasting m.log m'.log
  inFlight : m.log.current.isSome = m'.log.current.isSome
  identity : m.identity = m'.identity
  generator : m.generator = m'.generator
  imports : m.imports = m'.imports
  settings : m.settings = m'.settings
  stack : m.env.arena.stack = π.left
  stack' : m'.env.arena.stack = π.right
  tended : m.env.arena.Tends fun s => ∃ t, π.lasting s t
  tended' : m'.env.arena.Tends fun t => ∃ s, π.lasting s t
  layers : ∀ {s t}, π.Scopes s t → m.env.arena.layers s = m'.env.arena.layers t

namespace Twin

variable {d d' : Nat} {π : Pairing} {m m' : Machine} {s t : ScopeId} {v w : Value}

lemma occupied (ht : Twin d d' π m m') (hs : π.Scopes s t) :
    m.env.arena.frame? s ≠ none ∧ m'.env.arena.frame? t ≠ none := by
  refine ⟨ht.tended.occupied (hs.imp (fun h => ⟨t, h⟩) fun h => ?_),
    ht.tended'.occupied (hs.imp (fun h => ⟨s, h⟩) fun h => ?_)⟩
  · rw [ht.stack]
    exact π.mem_left h
  · rw [ht.stack']
    exact π.mem_right h

lemma own_eq (ht : Twin d d' π m m') (hs : π.Scopes s t) : m.env.own s = m'.env.own t := by
  obtain ⟨hocc, hocc'⟩ := ht.occupied hs
  exact (Arena.own_eq_head? ht.tended.layered hocc _).trans
    ((congrArg List.head? (ht.layers hs)).trans (Arena.own_eq_head? ht.tended'.layered hocc' _).symm)

lemma exists_own (ht : Twin d d' π m m') (hs : π.Scopes s t) : ∃ r, m.env.own s = some r := by
  obtain ⟨f, hf⟩ := Option.ne_none_iff_exists'.mp (ht.occupied hs).1
  exact ⟨f.bindings, (m.env.arena.own_eq_bindings _ s).trans (by rw [hf]; rfl)⟩

lemma own_parent_eq (ht : Twin d d' π m m') (hs : π.Scopes s t) :
    (m.env.arena.parent s).map m.env.own = (m'.env.arena.parent t).map m'.env.own := by
  obtain ⟨hocc, hocc'⟩ := ht.occupied hs
  refine (Arena.own_parent ht.tended.layered hocc _).trans
    (.trans ?_ (Arena.own_parent ht.tended'.layered hocc' _).symm)
  rw [ht.layers hs]

lemma own_root_eq (ht : Twin d d' π m m') (hs : π.Scopes s t) :
    m.env.own (m.env.arena.root s) = m'.env.own (m'.env.arena.root t) := by
  obtain ⟨hocc, hocc'⟩ := ht.occupied hs
  exact (Arena.own_root ht.tended.layered hocc _).trans
    ((congrArg List.getLast? (ht.layers hs)).trans (Arena.own_root ht.tended'.layered hocc' _).symm)

lemma lookup (ht : Twin d d' π m m') (hs : π.Scopes s t) (name : String) :
    Like π.lasting (m.env.lookup s name) (m'.env.lookup t name) := by
  have hsearch (rs : List MapRef) : Like π.lasting
      (rs.findSome? fun r => Entries.get? (m.env.heap.entries r) name)
      (rs.findSome? fun r => Entries.get? (m'.env.heap.entries r) name) := by
    induction rs with
    | nil => exact .none
    | cons r rs ih =>
      have hr := Entries.like_get? (ht.heap.entries r) name
      rw [List.findSome?_cons, List.findSome?_cons]
      revert hr
      generalize Entries.get? (m.env.heap.entries r) name = o
      generalize Entries.get? (m'.env.heap.entries r) name = o'
      intro hr
      cases hr with
      | some h => exact .some h
      | none => exact ih
  rw [Environment.lookup_eq, Environment.lookup_eq]
  have hlayers : m.env.layers s = m'.env.layers t := ht.layers hs
  rw [hlayers]
  exact hsearch _

lemma define (ht : Twin d d' π m m') (hs : π.Scopes s t) (name : String) (hv : Like π.lasting v w) :
    Heap.Like π.lasting (m.env.define s name v).heap (m'.env.define t name w).heap := by
  rw [Environment.heap_define, Environment.heap_define, ht.own_eq hs]
  cases m'.env.own t with
  | none => exact ht.heap
  | some r => exact ht.heap.setMap r (Entries.like_put (ht.heap.entries r) name hv)

lemma set (ht : Twin d d' π m m') (hs : π.Scopes s t) (name : String) (hv : Like π.lasting v w) :
    Heap.Like π.lasting (m.env.set s name v).heap (m'.env.set t name w).heap := by
  have hlayers : m.env.layers s = m'.env.layers t := ht.layers hs
  have hbound (r : MapRef) : (Entries.get? (m.env.heap.entries r) name).isSome =
      (Entries.get? (m'.env.heap.entries r) name).isSome :=
    isSome_of_like (Entries.like_get? (ht.heap.entries r) name)
  rw [Environment.heap_set, Environment.heap_set, hlayers]
  simp only [hbound]
  cases (m'.env.layers t).find? fun r => (Entries.get? (m'.env.heap.entries r) name).isSome with
  | none => exact ht.define hs name hv
  | some r => exact ht.heap.setMap r (Entries.like_put (ht.heap.entries r) name hv)

lemma withHeap (ht : Twin d d' π m m') {h h' : Heap} (hh : Heap.Like π.lasting h h') :
    Twin d d' π { m with env.heap := h } { m' with env.heap := h' } :=
  { ht with heap := hh }

lemma withEnv (ht : Twin d d' π m m') {env env' : Environment} (ha : env.arena = m.env.arena)
    (ha' : env'.arena = m'.env.arena) (hh : Heap.Like π.lasting env.heap env'.heap) :
    Twin d d' π { m with env := env } { m' with env := env' } := by
  obtain ⟨heap, arena⟩ := env
  obtain ⟨heap', arena'⟩ := env'
  cases ha
  cases ha'
  exact ht.withHeap hh

lemma withLog (ht : Twin d d' π m m') {log log' : RecordLog}
    (hl : π.records → RecordLog.Like π.lasting log log')
    (hflight : log.current.isSome = log'.current.isSome) :
    Twin d d' π { m with log := log } { m' with log := log' } :=
  { ht with log := hl, inFlight := hflight }

lemma withImports (ht : Twin d d' π m m') (imports : ImportCache) :
    Twin d d' π { m with imports := imports } { m' with imports := imports } :=
  { ht with imports := rfl }

lemma capture (ht : Twin d d' π m m') (hs : π.Scopes s t) :
    Twin d d' (π.keep s t)
      { m with env := (m.env.capture s).2, identity := m.identity + 1 }
      { m' with env := (m'.env.capture t).2, identity := m'.identity + 1 } := by
  have hle := (π.le_keep s t).lasting
  obtain ⟨hocc, hocc'⟩ := ht.occupied hs
  have hlayers {j k : ScopeId} (h : π.Scopes j k) :
      (m.env.arena.hold s).layers j = (m'.env.arena.hold t).layers k := by
    obtain ⟨hj, hk⟩ := ht.occupied h
    rw [ht.tended.layers_hold hj, ht.tended'.layers_hold hk, ht.layers h]
  refine { ht with
    heap := ht.heap.mono hle
    log := fun h => (ht.log h).mono hle
    identity := congrArg (· + 1) ht.identity
    stack := (m.env.stack_capture s).trans ht.stack
    stack' := (m'.env.stack_capture t).trans ht.stack'
    tended := (ht.tended.hold hocc).mono ?_
    tended' := (ht.tended'.hold hocc').mono ?_
    layers := ?_ }
  · rintro j ⟨k, hjk | ⟨rfl, rfl⟩⟩
    · exact .inl ⟨k, hjk⟩
    · exact .inr rfl
  · rintro k ⟨j, hjk | ⟨rfl, rfl⟩⟩
    · exact .inl ⟨j, hjk⟩
    · exact .inr rfl
  · rintro j k ((hjk | ⟨rfl, rfl⟩) | hjk)
    · exact hlayers (.inl hjk)
    · exact hlayers hs
    · exact hlayers (.inr hjk)

lemma pushRoot (ht : Twin d d' π m m') :
    Twin d d' (π.keep m.env.pushRoot.1 m'.env.pushRoot.1)
      { m with env := m.env.pushRoot.2 } { m' with env := m'.env.pushRoot.2 } := by
  have hnew (env : Environment) : env.pushRoot.1 = env.arena.fresh :=
    congrArg Prod.fst (Arena.allocate_eq (by simp))
  have hle := (π.le_keep m.env.pushRoot.1 m'.env.pushRoot.1).lasting
  have hlayers {j k : ScopeId} (h : π.Scopes j k) :
      m.env.pushRoot.2.arena.layers j = m'.env.pushRoot.2.arena.layers k := by
    obtain ⟨hj, hk⟩ := ht.occupied h
    exact (ht.tended.layers_allocate_root hj).trans
      ((ht.layers h).trans (ht.tended'.layers_allocate_root hk).symm)
  refine { ht with
    heap := (ht.heap.newMap like_nil).mono hle
    log := fun h => (ht.log h).mono hle
    stack := m.env.stack_pushRoot.trans ht.stack
    stack' := m'.env.stack_pushRoot.trans ht.stack'
    tended := ht.tended.allocate_root.mono ?_
    tended' := ht.tended'.allocate_root.mono ?_
    layers := ?_ }
  · rintro j ⟨k, hjk | ⟨rfl, rfl⟩⟩
    · exact .inl ⟨k, hjk⟩
    · exact .inr (hnew m.env)
  · rintro k ⟨j, hjk | ⟨rfl, rfl⟩⟩
    · exact .inl ⟨j, hjk⟩
    · exact .inr (hnew m'.env)
  · rintro j k ((hjk | ⟨rfl, rfl⟩) | hjk)
    · exact hlayers (.inl hjk)
    · rw [hnew, hnew]
      refine ht.tended.layers_allocate_root_self.trans (.trans ?_ ht.tended'.layers_allocate_root_self.symm)
      rw [ht.heap.maps]
    · exact hlayers (.inr hjk)

lemma enter (ht : Twin d d' π m m') (hs : π.Scopes s t) :
    Twin d d' (π.enter (m.env.enter s).1.1 (m'.env.enter t).1.1)
      { m with env := (m.env.enter s).2 } { m' with env := (m'.env.enter t).2 } := by
  obtain ⟨hocc, hocc'⟩ := ht.occupied hs
  have hparent : ∀ p ∈ some s, m.env.arena.frame? p ≠ none := by simpa using hocc
  have hparent' : ∀ p ∈ some t, m'.env.arena.frame? p ≠ none := by simpa using hocc'
  have hnew : (m.env.enter s).1.1 = m.env.arena.fresh := Arena.fst_push hparent
  have hnew' : (m'.env.enter t).1.1 = m'.env.arena.fresh := Arena.fst_push hparent'
  have hlayers {j k : ScopeId} (h : π.Scopes j k) :
      (m.env.enter s).2.arena.layers j = (m'.env.enter t).2.arena.layers k := by
    obtain ⟨hj, hk⟩ := ht.occupied h
    exact (ht.tended.layers_push hparent hj).trans
      ((ht.layers h).trans (ht.tended'.layers_push hparent' hk).symm)
  refine { ht with
    heap := ht.heap.newMap like_nil
    stack := (m.env.stack_enter s).1.trans (by rw [ht.stack]; rfl)
    stack' := (m'.env.stack_enter t).1.trans (by rw [ht.stack']; rfl)
    tended := ht.tended.push hparent
    tended' := ht.tended'.push hparent'
    layers := ?_ }
  rintro j k (hjk | hjk | ⟨rfl, rfl⟩)
  · exact hlayers (.inl hjk)
  · exact hlayers (.inr hjk)
  · rw [hnew, hnew']
    refine (ht.tended.layers_push_self hocc).trans (.trans ?_ (ht.tended'.layers_push_self hocc').symm)
    rw [ht.heap.maps, ht.layers hs]

variable {π' : Pairing} {mark : Nat}

lemma rearrange {a a' : Arena} (ht : Twin d d' π m m') (hlasting : π'.lasting = π.lasting)
    (hpassing : ∀ s t, π'.passing s t → π.passing s t) (hrecords : π'.records = π.records)
    (hstack : a.stack = π'.left) (hstack' : a'.stack = π'.right)
    (htended : a.Tends fun s => ∃ t, π.lasting s t) (htended' : a'.Tends fun t => ∃ s, π.lasting s t)
    (hlayers : ∀ s t, π'.Scopes s t →
      a.layers s = m.env.arena.layers s ∧ a'.layers t = m'.env.arena.layers t) :
    Twin d d' π' { m with env.arena := a } { m' with env.arena := a' } := by
  refine { ht with
    heap := by rw [hlasting]; exact ht.heap
    log := by rw [hlasting, hrecords]; exact ht.log
    stack := hstack
    stack' := hstack'
    tended := by rw [hlasting]; exact htended
    tended' := by rw [hlasting]; exact htended'
    layers := fun {s t} hs => ?_ }
  obtain ⟨hs₁, ht₁⟩ := hlayers s t hs
  have hold : π.Scopes s t := hs.imp (fun h => hlasting ▸ h) (hpassing s t)
  exact hs₁.trans ((ht.layers hold).trans ht₁.symm)

lemma releaseLeft (ht : Twin d d' π m m') (hlasting : π'.lasting = π.lasting)
    (hpassing : ∀ s t, π'.passing s t → π.passing s t)
    (hleft : π'.left.toList = π.left.toList.take mark) (hright : π'.right = π.right)
    (hrecords : π'.records = π.records) :
    Twin d d' π' (Eval.release mark m) m' := by
  obtain ⟨htended, hlayers⟩ := ht.tended.release mark
  refine ht.rearrange hlasting hpassing hrecords ?_ (ht.stack'.trans hright.symm) htended ht.tended'
    fun s t hs => ⟨hlayers s ?_, rfl⟩
  · rw [← Array.toList_inj, Arena.stack_release, hleft, ht.stack]
  · rcases hs with hs | hs
    · exact .inl ⟨t, hlasting ▸ hs⟩
    · rw [ht.stack, ← hleft]
      exact .inr (Array.mem_toList_iff.mpr (π'.mem_left hs))

lemma releaseRight (ht : Twin d d' π m m') (hlasting : π'.lasting = π.lasting)
    (hpassing : ∀ s t, π'.passing s t → π.passing s t) (hleft : π'.left = π.left)
    (hright : π'.right.toList = π.right.toList.take mark) (hrecords : π'.records = π.records) :
    Twin d d' π' m (Eval.release mark m') := by
  obtain ⟨htended, hlayers⟩ := ht.tended'.release mark
  refine ht.rearrange hlasting hpassing hrecords (ht.stack.trans hleft.symm) ?_ ht.tended htended
    fun s t hs => ⟨rfl, hlayers t ?_⟩
  · rw [← Array.toList_inj, Arena.stack_release, hright, ht.stack']
  · rcases hs with hs | hs
    · exact .inl ⟨s, hlasting ▸ hs⟩
    · rw [ht.stack', ← hright]
      exact .inr (Array.mem_toList_iff.mpr (π'.mem_right hs))

lemma leave (hle : π.enter s t ≤ π') (ht : Twin d d' π' m m') :
    Twin d d' (π.leave π') (Eval.release π.left.size m) (Eval.release π.right.size m') := by
  have hpassing (j k : ScopeId) (h : π.passing j k) : π'.passing j k := hle.passing ▸ .inl h
  have hleft : π'.left = π.left.push s := hle.left
  have hright : π'.right = π.right.push t := hle.right
  let half : Pairing :=
    { π with
      lasting := π'.lasting
      right := π'.right
      records := π'.records
      mem_right := fun h => π'.mem_right (hpassing _ _ h) }
  have hhalf : Twin d d' half (Eval.release π.left.size m) m' :=
    ht.releaseLeft rfl hpassing (by rw [hleft]; simp [half]) rfl rfl
  exact hhalf.releaseRight rfl (fun _ _ h => h) rfl (by simp [half, hright, Pairing.leave])
    hle.records.symm

lemma deeper (ht : Twin d d' π m m') (hm : m.depth.val < maxDepth) (hm' : m'.depth.val < maxDepth) :
    Twin (d + 1) (d' + 1) π (m.deeper hm) (m'.deeper hm') :=
  { ht with
    depth := congrArg (· + 1) ht.depth
    depth' := congrArg (· + 1) ht.depth' }

lemma shallowerLeft (ht : Twin (d + 1) d' π m m') : Twin d d' π m.shallower m' :=
  { ht with depth := congrArg (· - 1) ht.depth }

lemma shallowerRight (ht : Twin d (d' + 1) π m m') : Twin d d' π m m'.shallower :=
  { ht with depth' := congrArg (· - 1) ht.depth' }

end Twin

end DiceLang

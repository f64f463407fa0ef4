import DiceLang.Proofs.Scope.Ledger
import DiceLang.Proofs.Scope.Sweeping

/-! Slots are used again behind the back of the client: a scope stays in its slot as long as something can
still get at it, and answers as in the ledger. -/

namespace DiceLang.Client

variable {c c' : Client} {l l' : Ledger} {id : ScopeId}

lemma slotOf_congr (hscopes : c'.scopes = c.scopes) : c'.slotOf = c.slotOf := by
  funext id
  rw [slotOf, slot, hscopes]
  rfl

namespace Mirrors

lemma occupied_of_anchored (hsound : c'.Sound)
    (hstack : c'.env.arena.stack.toList = l'.env.arena.stack.toList.map c.slotOf)
    (hroots : c'.roots = l'.roots.map c.slotOf)
    (hcaptures : c'.captures = l'.captures.map (.rename c.slotOf)) (hid : l'.Anchored id) :
    c'.env.arena.frame? (c.slotOf id) ≠ none := by
  rcases hid with hid | hid | hid
  · refine hsound.arena.occupied_of_mem_stack (Array.mem_toList_iff.mp ?_)
    rw [hstack]
    exact List.mem_map_of_mem hid
  · refine hsound.occupied_of_mem_roots ?_
    rw [hroots]
    exact List.mem_map_of_mem hid
  · refine hsound.arena.counted.occupied _ ?_
    obtain ⟨k, hk, rfl⟩ := List.mem_map.mp hid
    rw [hcaptures, List.map_map]
    exact List.mem_map_of_mem (f := Capture.scope ∘ Capture.rename c.slotOf) hk

lemma shrink (hm : c.Mirrors l) (hsound : c'.Sound) (hscopes : c'.scopes = c.scopes)
    (hheap : c'.env.heap = l'.env.heap) (hslots : l'.env.arena.slots = l.env.arena.slots)
    (hfree : l'.env.arena.free = l.env.arena.free) (hanchored : ∀ id, l'.Anchored id → c.Present id)
    (hkept : ∀ j f, c'.env.arena.frame? j = some f → c.env.arena.frame? j = some f)
    (hstack : c'.env.arena.stack.toList = l'.env.arena.stack.toList.map c.slotOf)
    (hroots : c'.roots = l'.roots.map c.slotOf)
    (hcaptures : c'.captures = l'.captures.map (.rename c.slotOf)) : c'.Mirrors l' := by
  have hslot : c'.slotOf = c.slotOf := slotOf_congr hscopes
  have hframe (id : ScopeId) : l'.env.arena.frame? id = l.env.arena.frame? id := by
    rw [Arena.frame?, Arena.scope?, hslots]
    rfl
  refine ⟨hsound, hheap, hfree.trans hm.free, ?_, ?_, hm.layered.congr hframe, hslot ▸ hstack,
    hslot ▸ hroots, hslot ▸ hcaptures, fun id hid => ?_, fun id hid => ?_⟩
  · simpa only [hframe, hslots] using hm.full
  · rw [hscopes, hslots, hm.size]
  · exact (hanchored id hid).congr hscopes (occupied_of_anchored hsound hstack hroots hcaptures hid)
  · -- a scope that is still there has its frame, and the new arena is sound, so what it points to is there
    obtain ⟨g, hg⟩ := Option.ne_none_iff_exists'.mp hid.occupied
    rw [hslot] at hg ⊢
    have hold : c.Present id := hid.congr hscopes.symm (by rw [hslot, hkept _ _ hg]; simp)
    obtain ⟨f, hf, hf', hparent, howned⟩ := hm.frame id hold
    obtain rfl : f.rename c.slotOf = g := Option.some.inj (hf'.symm.trans (hkept _ _ hg))
    refine ⟨f, (hframe id).trans hf, hg, fun p hp => ?_, fun k hk => ?_⟩
    · obtain ⟨h, hh, -⟩ := hsound.arena.layered _ _ (c.slotOf p) hg (by rw [Frame.rename, hp]; rfl)
      exact (hparent p hp).congr hscopes (by simp [hh])
    · have hbusy := hsound.arena.counted.busy _ _ hg _ (List.mem_map_of_mem hk)
      exact (howned k hk).congr hscopes hbusy.2

lemma release (hm : c.Mirrors l) (mark : Nat) :
    (c.step (.release mark)).Mirrors (l.step (.release mark)) := by
  have hcut : (l.step (.release mark)).env.arena.stack.toList = l.env.arena.stack.toList.take mark := by
    simp [Ledger.step]
  refine hm.shrink (hm.sound.step _ (by simp [Request.scopes])) rfl hm.heap rfl rfl ?_
    (fun _ _ => Arena.frame?_of_release mark) ?_ hm.roots hm.captures
  · rintro id (hid | hid)
    · rw [hcut] at hid
      exact hm.anchored id (.inl (List.mem_of_mem_take hid))
    · exact hm.anchored id (.inr hid)
  · rw [hcut, List.map_take, ← hm.stack]
    exact Arena.stack_release _ _

lemma sweep (hm : c.Mirrors l) : (c.step .sweep).Mirrors (l.step .sweep) := by
  refine hm.shrink (hm.sound.step _ (by simp [Request.scopes])) rfl hm.heap rfl rfl hm.anchored
    (fun _ _ => Arena.frame?_of_sweep) ?_ hm.roots hm.captures
  exact (congrArg Array.toList (Arena.stack_sweep _)).trans hm.stack

lemma recapture (hm : c.Mirrors l) {arena : Arena} {ks ls : List Capture}
    (hsound : Client.Sound ⟨⟨c.env.heap, arena⟩, c.scopes, c.roots, ks⟩)
    (hframe : ∀ j, arena.frame? j = c.env.arena.frame? j) (hstack : arena.stack = c.env.arena.stack)
    (hks : ks = ls.map (.rename c.slotOf)) (hls : ∀ k ∈ ls, c.Present k.scope) :
    Client.Mirrors ⟨⟨c.env.heap, arena⟩, c.scopes, c.roots, ks⟩ { l with captures := ls } := by
  refine hm.shrink hsound rfl hm.heap rfl rfl ?_ (fun j f hf => hframe j ▸ hf) ?_ hm.roots hks
  · rintro id (hid | hid | hid)
    · exact hm.anchored id (.inl hid)
    · exact hm.anchored id (.inr (.inl hid))
    · obtain ⟨k, hk, rfl⟩ := List.mem_map.mp hid
      exact hls k hk
  · exact (congrArg Array.toList hstack).trans hm.stack

lemma present_captures (hm : c.Mirrors l) : ∀ k ∈ l.captures, c.Present k.scope :=
  fun k hk => hm.anchored k.scope (.inr (.inr (List.mem_map_of_mem hk)))

lemma getElem?_captures (hm : c.Mirrors l) (n : Nat) :
    c.captures[n]? = l.captures[n]?.map (.rename c.slotOf) := by
  rw [hm.captures, List.getElem?_map]

lemma capture (hm : c.Mirrors l) {i : Nat} (hi : c.Present ⟨i⟩) :
    (c.step (.capture i)).Mirrors (l.step (.capture i)) := by
  have hocc : (c.env.arena.scope? (c.slot i)).isSome := hi.2.1
  have hsound := hm.sound.step (.capture i) (List.forall_mem_singleton.mpr hocc)
  refine hm.recapture hsound (Arena.frame?_hold _ _) (Arena.stack_hold _ _) ?_
    (List.forall_mem_cons.mpr ⟨hi, hm.present_captures⟩)
  rw [List.map_cons, ← hm.captures, Capture.rename, slotOf, ← Option.isNone_eq_false_iff.mpr hocc]

lemma duplicate (hm : c.Mirrors l) (n : Nat) :
    (c.step (.duplicate n)).Mirrors (l.step (.duplicate n)) := by
  have hsound := hm.sound.duplicate n
  have hget := hm.getElem?_captures n
  cases hk : l.captures[n]? with
  | none =>
    have hstep : c.step (.duplicate n) = c := by rw [step, hget, hk]; rfl
    have hledger : l.step (.duplicate n) = l := by rw [Ledger.step, hk]; rfl
    rw [hstep, hledger]
    exact hm
  | some k =>
    rw [hk, Option.map_some] at hget
    have hbusy := hm.sound.busy _ (List.mem_of_getElem? hget)
    have hstep : c.step (.duplicate n) = ⟨⟨c.env.heap, c.env.arena.hold (c.slotOf k.scope)⟩, c.scopes,
        c.roots, k.rename c.slotOf :: c.captures⟩ := by
      simp only [step, hget, Environment.duplicate, Arena.duplicate, hbusy]
      rfl
    have hledger : l.step (.duplicate n) = { l with captures := k :: l.captures } := by
      rw [Ledger.step, hk]
      rfl
    rw [hstep] at hsound ⊢
    rw [hledger]
    refine hm.recapture hsound (Arena.frame?_hold _ _) (Arena.stack_hold _ _) ?_
      (List.forall_mem_cons.mpr ⟨hm.present_captures k (List.mem_of_getElem? hk), hm.present_captures⟩)
    rw [List.map_cons, ← hm.captures]

lemma drop (hm : c.Mirrors l) (n : Nat) : (c.step (.drop n)).Mirrors (l.step (.drop n)) := by
  have hsound := hm.sound.drop n
  have hget := hm.getElem?_captures n
  cases hk : l.captures[n]? with
  | none =>
    have hstep : c.step (.drop n) = c := by rw [step, hget, hk]; rfl
    have hledger : l.step (.drop n) = l := by
      rw [Ledger.step, List.eraseIdx_of_length_le (List.getElem?_eq_none_iff.mp hk)]
    rw [hstep, hledger]
    exact hm
  | some k =>
    rw [hk, Option.map_some] at hget
    have hbusy := hm.sound.busy _ (List.mem_of_getElem? hget)
    have hstep : c.step (.drop n) = ⟨⟨c.env.heap, c.env.arena.unhold (c.slotOf k.scope)⟩, c.scopes,
        c.roots, c.captures.eraseIdx n⟩ := by
      simp only [step, hget, Environment.drop, Arena.drop, hbusy]
      rfl
    rw [hstep] at hsound ⊢
    refine hm.recapture hsound (Arena.frame?_unhold _ _) (Arena.stack_unhold _ _) ?_
      fun k hk => hm.present_captures k (List.mem_of_mem_eraseIdx hk)
    rw [← List.eraseIdx_map, ← hm.captures]

section Reown

variable {g g' : List Capture → List Capture}

lemma reown (hm : c.Mirrors l) (hsound : c'.Sound) (hscopes : c'.scopes = c.scopes)
    (hheap : c'.env.heap = l'.env.heap) (hid : c.Present id)
    (hc : Arena.Reowns c.env.arena c'.env.arena (c.slotOf id) g)
    (hl : Arena.Reowns l.env.arena l'.env.arena id g')
    (hg : ∀ ks : List Capture, g (ks.map (.rename c.slotOf)) = (g' ks).map (.rename c.slotOf))
    (howned : ∀ f, l.env.arena.frame? id = some f → ∀ k ∈ g' f.owned, c.Present k.scope)
    (hroots : c'.roots = c.roots) (hroots' : l'.roots = l.roots)
    (hcaptures : c'.captures = l'.captures.map (.rename c.slotOf))
    (hpresent : ∀ k ∈ l'.captures, c.Present k.scope) : c'.Mirrors l' := by
  have hslot : c'.slotOf = c.slotOf := slotOf_congr hscopes
  have hthere {j : ScopeId} (hj : c.Present j) : c'.Present j :=
    hj.congr hscopes ((hc.ne_none_iff _).mpr hj.occupied)
  have hback {j : ScopeId} (hj : c'.Present j) : c.Present j :=
    hj.congr hscopes.symm (by rw [hslot, ← hc.ne_none_iff]; exact hslot ▸ hj.occupied)
  refine ⟨hsound, hheap, hl.free.trans hm.free, fun i hi => ?_, ?_, hl.layered hm.layered, ?_, ?_, ?_, ?_,
    fun j hj => ?_⟩
  · rw [hl.ne_none_iff]
    exact hm.full i (hl.size ▸ hi)
  · rw [hscopes, hl.size, hm.size]
  · rw [hc.stack, hl.stack, hslot, hm.stack]
  · rw [hroots, hroots', hslot, hm.roots]
  · rw [hslot, hcaptures]
  · rintro j (hj | hj | hj)
    · exact hthere (hm.anchored j (.inl (hl.stack ▸ hj)))
    · exact hthere (hm.anchored j (.inr (.inl (hroots' ▸ hj))))
    · obtain ⟨k, hk, rfl⟩ := List.mem_map.mp hj
      exact hthere (hpresent k hk)
  · have hj := hback hj
    obtain ⟨f, hf, hf', hparent, hold⟩ := hm.frame j hj
    rw [hslot]
    by_cases heq : j = id
    · subst heq
      refine ⟨_, hl.frame?_self hf, ?_, fun p hp => hthere (hparent p hp),
        fun k hk => hthere (howned f hf k hk)⟩
      rw [hc.frame?_self hf']
      simp only [Frame.rename, hg]
    · have hne : c.slotOf j ≠ c.slotOf id := fun hsame => heq (hj.injective hid hsame)
      exact ⟨f, (hl.frame?_of_ne heq).trans hf, (hc.frame?_of_ne hne).trans hf',
        fun p hp => hthere (hparent p hp), fun k hk => hthere (hold k hk)⟩

end Reown

lemma entrust (hm : c.Mirrors l) {i : Nat} (hi : c.Present ⟨i⟩) (n : Nat) :
    (c.step (.entrust i n)).Mirrors (l.step (.entrust i n)) := by
  have hsound := hm.sound.entrust i n hi.occupied
  have hget := hm.getElem?_captures n
  cases hk : l.captures[n]? with
  | none =>
    have hstep : c.step (.entrust i n) = c := by rw [step, hget, hk]; rfl
    have hledger : l.step (.entrust i n) = l := by rw [Ledger.step, hk]
    rw [hstep, hledger]
    exact hm
  | some k =>
    rw [hk, Option.map_some] at hget
    have hstep : c.step (.entrust i n) = ⟨c.env.entrust (c.slot i) (k.rename c.slotOf), c.scopes, c.roots,
        c.captures.eraseIdx n⟩ := by
      rw [step, hget]
    have hledger : l.step (.entrust i n) = ⟨l.env.entrust ⟨i⟩ k, l.roots, l.captures.eraseIdx n⟩ := by
      rw [Ledger.step, hk]
    obtain ⟨f, hf, -, -, hold⟩ := hm.frame ⟨i⟩ hi
    rw [hstep] at hsound ⊢
    rw [hledger]
    refine hm.reown hsound rfl hm.heap hi (Arena.reowns_entrust hi.occupied _)
      (Arena.reowns_entrust (by simp [hf]) k) (fun _ => rfl) ?_ rfl rfl ?_
      fun k hk => hm.present_captures k (List.mem_of_mem_eraseIdx hk)
    · intro f' hf'
      obtain rfl : f = f' := Option.some.inj (hf.symm.trans hf')
      exact List.forall_mem_cons.mpr ⟨hm.present_captures k (List.mem_of_getElem? hk), hold⟩
    · rw [← List.eraseIdx_map, ← hm.captures]

lemma reclaim (hm : c.Mirrors l) {i : Nat} (hi : c.Present ⟨i⟩) (n : Nat) :
    (c.step (.reclaim i n)).Mirrors (l.step (.reclaim i n)) := by
  obtain ⟨f, hf, hf', -, hold⟩ := hm.frame ⟨i⟩ hi
  have hfst : (c.env.arena.reclaim (c.slot i) n).1 = f.owned[n]?.map (.rename c.slotOf) :=
    (Arena.fst_reclaim hf' n).trans List.getElem?_map
  have hfst' : (l.env.arena.reclaim ⟨i⟩ n).1 = f.owned[n]? := Arena.fst_reclaim hf n
  refine hm.reown (hm.sound.reclaim i n hi.occupied) rfl hm.heap hi
    (c.env.arena.reowns_reclaim (c.slot i) n) (l.env.arena.reowns_reclaim ⟨i⟩ n)
    (fun ks => List.eraseIdx_map ..) ?_ rfl rfl ?_ ?_
  · intro f' hf' k hk
    obtain rfl : f = f' := Option.some.inj (hf.symm.trans hf')
    exact hold k (List.mem_of_mem_eraseIdx hk)
  · change (c.env.arena.reclaim (c.slot i) n).1.toList ++ c.captures =
      ((l.env.arena.reclaim ⟨i⟩ n).1.toList ++ l.captures).map (.rename c.slotOf)
    rw [hfst, hfst', List.map_append, ← hm.captures]
    cases f.owned[n]? <;> rfl
  · change ∀ k ∈ (l.env.arena.reclaim ⟨i⟩ n).1.toList ++ l.captures, c.Present k.scope
    rw [hfst']
    intro k hk
    rcases List.mem_append.mp hk with hk | hk
    · exact hold k (List.mem_of_getElem? (Option.mem_toList.mp hk))
    · exact hm.present_captures k hk

lemma assign (hm : c.Mirrors l) {env env' : Environment} (hc : env.arena = c.env.arena)
    (hl : env'.arena = l.env.arena) (hheap : env.heap = env'.heap) :
    ({ c with env := env } : Client).Mirrors { l with env := env' } := by
  obtain ⟨heap, arena⟩ := env
  obtain ⟨heap', arena'⟩ := env'
  cases hc
  cases hl
  have hsound : ({ c with env := ⟨heap, c.env.arena⟩ } : Client).Sound :=
    ⟨hm.sound.arena, hm.sound.busy, hm.sound.global_mem⟩
  exact hm.shrink hsound rfl hheap rfl rfl hm.anchored (fun _ _ hf => hf) hm.stack hm.roots hm.captures

lemma define (hm : c.Mirrors l) {i : Nat} (hi : c.Present ⟨i⟩) (name : String) (v : Value) :
    (c.step (.define i name v)).Mirrors (l.step (.define i name v)) :=
  hm.assign (Environment.arena_define _ _ _ _) (Environment.arena_define _ _ _ _)
    (Environment.heap_define_congr hm.heap (hm.own_eq hi) name v)

lemma set (hm : c.Mirrors l) {i : Nat} (hi : c.Present ⟨i⟩) (name : String) (v : Value) :
    (c.step (.set i name v)).Mirrors (l.step (.set i name v)) :=
  hm.assign (Environment.arena_set _ _ _ _) (Environment.arena_set _ _ _ _)
    (Environment.heap_set_congr hm.heap (hm.own_eq hi) (hm.layers_eq hi) name v)

section Grow

variable {new : ScopeId} {f : Frame} (hm : c.Mirrors l) (hscopes : c'.scopes = c.scopes ++ [new])
  (hc : Arena.Gains c.env.arena c'.env.arena new (f.rename c.slotOf))

include hm in
lemma fresh_eq : l.env.arena.fresh = ⟨l.env.arena.slots.size⟩ := by
  simp [Arena.fresh, hm.free]

include hscopes in
lemma slot_of_lt {i : Nat} (hi : i < c.scopes.length) : c'.slot i = c.slot i := by
  rw [slot, hscopes, List.getD_append _ _ _ _ hi]
  rfl

include hm hscopes in
lemma slotOf_fresh : c'.slotOf l.env.arena.fresh = new := by
  rw [slotOf, slot, hscopes, hm.fresh_eq, ← hm.size]
  simp

include hscopes in
lemma slotOf_of_present (hid : c.Present id) : c'.slotOf id = c.slotOf id := slot_of_lt hscopes hid.1

include hscopes hc in
lemma present_of_present (hid : c.Present id) : c'.Present id := by
  have hslot := slotOf_of_present hscopes hid
  refine ⟨by rw [hscopes, List.length_append]; exact Nat.lt_add_right _ hid.1, ?_, fun j hj hlt => ?_⟩
  · rw [hslot, Arena.isSome_scope?, hc.kept hid.occupied]
    exact hid.occupied
  · rw [hscopes, List.length_append, List.length_singleton, Nat.lt_succ_iff_lt_or_eq] at hj
    rw [hslot]
    rcases hj with hj | rfl
    · rw [slot_of_lt hscopes hj]
      exact hid.2.2 j hj hlt
    · -- the new slot was vacant
      rw [slot, hscopes]
      intro heq
      refine hid.occupied ?_
      rw [← heq]
      simpa using hc.vacant

include hm hscopes hc in
lemma present_fresh : c'.Present l.env.arena.fresh := by
  refine ⟨?_, ?_, fun j hj hlt => ?_⟩
  · rw [hm.fresh_eq, hscopes, List.length_append, hm.size]
    exact Nat.lt_succ_self _
  · rw [hm.slotOf_fresh hscopes, Arena.isSome_scope?, hc.frame, if_pos rfl]
    exact Option.some_ne_none _
  · rw [hscopes, List.length_append, hm.size, List.length_singleton] at hj
    rw [hm.fresh_eq] at hlt
    dsimp only at hlt
    omega

include hm hscopes hc in
lemma eq_fresh_or_present (hid : c'.Present id) : id = l.env.arena.fresh ∨ c.Present id := by
  obtain ⟨hlt, hocc, hlatest⟩ := hid
  rw [hscopes, List.length_append, List.length_singleton] at hlt hlatest
  rcases Nat.lt_succ_iff_lt_or_eq.mp hlt with hlt | heq
  · have hslot : c'.slotOf id = c.slotOf id := slot_of_lt hscopes hlt
    have hnew : c.slotOf id ≠ new := by
      have hlast := hlatest c.scopes.length (Nat.lt_succ_self _) hlt
      rw [slot, hscopes, hslot] at hlast
      simpa [eq_comm] using hlast
    rw [hslot, Arena.isSome_scope?, hc.frame, if_neg hnew] at hocc
    refine .inr ⟨hlt, Arena.isSome_scope?.mpr hocc, fun j hj hij => ?_⟩
    rw [← slot_of_lt hscopes hj, ← hslot]
    exact hlatest j (Nat.lt_succ_of_lt hj) hij
  · rw [hm.fresh_eq, ← hm.size]
    exact .inl (ScopeId.index_injective heq)

include hm hscopes in
lemma map_slotOf (ids : List ScopeId) (hids : ∀ id ∈ ids, l.Anchored id) :
    ids.map c'.slotOf = ids.map c.slotOf :=
  List.map_congr_left fun id hid => slotOf_of_present hscopes (hm.anchored id (hids id hid))

include hscopes in
lemma map_rename (ks : List Capture) (hks : ∀ k ∈ ks, c.Present k.scope) :
    ks.map (Capture.rename c'.slotOf) = ks.map (.rename c.slotOf) :=
  List.map_congr_left fun k hk => by
    rw [Capture.rename, Capture.rename, slotOf_of_present hscopes (hks k hk)]

include hscopes in
lemma rename_eq {h : Frame} (hparent : ∀ p ∈ h.parent, c.Present p)
    (howned : ∀ k ∈ h.owned, c.Present k.scope) : h.rename c'.slotOf = h.rename c.slotOf := by
  have hsame : h.parent.map c'.slotOf = h.parent.map c.slotOf := by
    cases hp : h.parent with
    | none => rfl
    | some p => exact congrArg some (slotOf_of_present hscopes (hparent p hp))
  rw [Frame.rename, Frame.rename, hsame, map_rename hscopes _ howned]

include hm hscopes hc in
lemma grow (hsound : c'.Sound) (hheap : c'.env.heap = l'.env.heap)
    (hl : Arena.Gains l.env.arena l'.env.arena l.env.arena.fresh f)
    (hfree : l'.env.arena.free = #[]) (hsize : l'.env.arena.slots.size = l.env.arena.slots.size + 1)
    (hlayered : l'.env.arena.Layered) (hparent : ∀ p ∈ f.parent, c.Present p) (howned : f.owned = [])
    (hanchored : ∀ id, l'.Anchored id → id = l.env.arena.fresh ∨ l.Anchored id)
    (hstack : c'.env.arena.stack.toList = l'.env.arena.stack.toList.map c'.slotOf)
    (hroots : c'.roots = l'.roots.map c'.slotOf)
    (hcaptures : c'.captures = l'.captures.map (.rename c'.slotOf)) : c'.Mirrors l' := by
  have hthere {j : ScopeId} (hj : c.Present j) : c'.Present j := present_of_present hscopes hc hj
  refine ⟨hsound, hheap, hfree, ?_, ?_, hlayered, hstack, hroots, hcaptures, fun id hid => ?_,
    fun id hid => ?_⟩
  · intro i hi
    rw [hl.frame]
    split_ifs with hne
    · exact Option.some_ne_none f
    · rw [hm.fresh_eq, ScopeId.mk.injEq] at hne
      exact hm.full i (by omega)
  · rw [hscopes, hsize, List.length_append, hm.size]
    rfl
  · rcases hanchored id hid with rfl | hid
    · exact hm.present_fresh hscopes hc
    · exact hthere (hm.anchored id hid)
  · rcases hm.eq_fresh_or_present hscopes hc hid with rfl | hid
    · refine ⟨f, by rw [hl.frame, if_pos rfl], ?_, fun p hp => hthere (hparent p hp), by simp [howned]⟩
      rw [hm.slotOf_fresh hscopes, hc.frame, if_pos rfl, rename_eq hscopes hparent (by simp [howned])]
    · obtain ⟨g, hg, hg', hgparent, hgowned⟩ := hm.frame id hid
      refine ⟨g, by rw [hl.kept (by simp [hg]), hg], ?_, fun p hp => hthere (hgparent p hp),
        fun k hk => hthere (hgowned k hk)⟩
      rw [slotOf_of_present hscopes hid, hc.kept (by simp [hg']), hg', rename_eq hscopes hgparent hgowned]

end Grow

section Push

variable {parent : Option ScopeId} (hm : c.Mirrors l) (hparent : ∀ p ∈ parent, c.Present p)
  (bindings : MapRef)

include hm hparent in
lemma occupied_ledger : ∀ p ∈ parent, l.env.arena.frame? p ≠ none := by
  intro p hp
  obtain ⟨f, hf, -⟩ := hm.frame p (hparent p hp)
  simp [hf]

include hparent in
lemma occupied_client : ∀ p ∈ parent.map c.slotOf, c.env.arena.frame? p ≠ none := by
  intro p hp
  obtain ⟨q, hq, rfl⟩ := Option.map_eq_some_iff.mp hp
  exact (hparent q hq).occupied

include hm hparent in
lemma child_eq : (c.env.arena.child (parent.map c.slotOf) bindings).frame =
    (l.env.arena.child parent bindings).frame.rename c.slotOf := by
  cases parent with
  | none => rfl
  | some p =>
    obtain ⟨f, hf, hf', -⟩ := hm.frame p (hparent p rfl)
    rw [Option.map_some, Arena.frame_child _ _ _ hf', Arena.frame_child _ _ _ hf]
    rfl

include hm hparent in
lemma gains_client :
    Arena.Gains c.env.arena (c.env.arena.allocate (parent.map c.slotOf) bindings).2 c.env.arena.fresh
      ((l.env.arena.child parent bindings).frame.rename c.slotOf) := by
  have hfree := hm.sound.arena.free
  rw [← hm.child_eq hparent bindings]
  exact Arena.gains_allocate (occupied_client hparent) hfree.lt hfree.fresh_eq_none

include hm hparent in
lemma gains_ledger :
    Arena.Gains l.env.arena (l.env.arena.allocate parent bindings).2 l.env.arena.fresh
      (l.env.arena.child parent bindings).frame := by
  refine Arena.gains_allocate (hm.occupied_ledger hparent) (by simp [hm.free]) ?_
  rw [hm.fresh_eq]
  by_contra hne
  exact (Arena.index_lt hne).false

include hm hparent in
lemma receive (hsound : c'.Sound) (hheap : c'.env.heap = l'.env.heap)
    (hscopes : c'.scopes = c.scopes ++ [c.env.arena.fresh])
    (hc : c'.env.arena.slots = (c.env.arena.allocate (parent.map c.slotOf) bindings).2.slots)
    (hl : l'.env.arena.slots = (l.env.arena.allocate parent bindings).2.slots)
    (hfree : l'.env.arena.free = (l.env.arena.allocate parent bindings).2.free)
    (hanchored : ∀ id, l'.Anchored id → id = l.env.arena.fresh ∨ l.Anchored id)
    (hstack : c'.env.arena.stack.toList = l'.env.arena.stack.toList.map c'.slotOf)
    (hroots : c'.roots = l'.roots.map c'.slotOf)
    (hcaptures : c'.captures = l'.captures.map (.rename c'.slotOf)) : c'.Mirrors l' := by
  have hocc := hm.occupied_ledger hparent
  have hgains := hm.gains_ledger hparent bindings
  refine hm.grow hscopes ((hm.gains_client hparent bindings).congr hc) hsound hheap (hgains.congr hl)
    ?_ ?_ ?_ ?_ (Arena.owned_child _ _ _) hanchored hstack hroots hcaptures
  · rw [hfree, Arena.free_allocate hocc, hm.free]
    rfl
  · rw [hl, Arena.size_allocate_of_empty hocc hm.free]
  · exact (hgains.congr hl).layered hm.layered (Arena.depth_child hocc)
  · rwa [Arena.parent_child hocc]

end Push

lemma push (hm : c.Mirrors l) (parent : Option Nat) (hparent : ∀ i ∈ parent, c.Present ⟨i⟩) :
    (c.step (.push parent)).Mirrors (l.step (.push parent)) := by
  have hlive : ∀ p ∈ parent.map ScopeId.mk, c.Present p := by
    intro p hp
    obtain ⟨i, hi, rfl⟩ := Option.map_eq_some_iff.mp hp
    exact hparent i hi
  have hslot : parent.map c.slot = (parent.map ScopeId.mk).map c.slotOf := by cases parent <;> rfl
  have hocc := occupied_client hlive
  have hsound : (c.step (.push parent)).Sound := by
    apply hm.sound.step
    intro i hi
    have hi : i ∈ parent := by simpa [Request.scopes] using hi
    exact Arena.isSome_scope?.mpr (hocc _ (by rw [hi]; rfl))
  have hscopes : (c.step (.push parent)).scopes = c.scopes ++ [c.env.arena.fresh] := by
    rw [← Arena.fst_push hocc, ← hslot]
    rfl
  have hstack : (l.step (.push parent)).env.arena.stack = l.env.arena.stack.push l.env.arena.fresh :=
    Arena.stack_push (hm.occupied_ledger hlive)
  have hcstack : (c.step (.push parent)).env.arena.stack = c.env.arena.stack.push c.env.arena.fresh := by
    rw [← Arena.stack_push hocc, ← hslot]
    rfl
  refine hm.receive hlive (c.env.heap.newMap []).1 hsound ?_ hscopes ?_ ?_ ?_ ?_ ?_ ?_ ?_
  · exact congrArg (fun h => (h.newMap []).2) hm.heap
  · rw [← hslot]
    rfl
  · rw [hm.heap]
    rfl
  · rw [hm.heap]
    rfl
  · rintro id (hid | hid)
    · rw [hstack, Array.toList_push, List.mem_append, List.mem_singleton] at hid
      exact hid.symm.imp_right .inl
    · exact .inr (.inr hid)
  · rw [hstack, hcstack, Array.toList_push, Array.toList_push, List.map_append,
      hm.map_slotOf hscopes _ fun _ => .inl, ← hm.stack, List.map_singleton, hm.slotOf_fresh hscopes]
  · exact hm.roots.trans (hm.map_slotOf hscopes _ fun _ h => .inr (.inl h)).symm
  · exact hm.captures.trans (map_rename hscopes _ hm.present_captures).symm

lemma pushRoot (hm : c.Mirrors l) : (c.step .pushRoot).Mirrors (l.step .pushRoot) := by
  have hlive : ∀ p ∈ (none : Option ScopeId), c.Present p := by simp
  have hid : (l.env.arena.allocate none (l.env.heap.newMap []).1).1 = l.env.arena.fresh := by
    rw [Arena.allocate_eq (by simp)]
  have hcid : (c.env.arena.allocate none (c.env.heap.newMap []).1).1 = c.env.arena.fresh := by
    rw [Arena.allocate_eq (by simp)]
  have hstack : (l.step .pushRoot).env.arena.stack = l.env.arena.stack :=
    Environment.stack_pushRoot l.env
  have hroots : (l.step .pushRoot).roots = l.env.arena.fresh :: l.roots := by
    rw [← hid]
    rfl
  have hsound : (c.step .pushRoot).Sound := hm.sound.step _ (by simp [Request.scopes])
  have hscopes : (c.step .pushRoot).scopes = c.scopes ++ [c.env.arena.fresh] := by
    rw [← hcid]
    rfl
  refine hm.receive hlive (c.env.heap.newMap []).1 hsound ?_ hscopes rfl ?_ ?_ ?_ ?_ ?_ ?_
  · exact congrArg (fun h => (h.newMap []).2) hm.heap
  · rw [hm.heap]
    rfl
  · rw [hm.heap]
    rfl
  · rintro id (hid | hid | hid)
    · rw [hstack] at hid
      exact .inr (.inl hid)
    · rw [hroots, List.mem_cons] at hid
      exact hid.imp_right fun h => .inr (.inl h)
    · exact .inr (.inr (.inr hid))
  · rw [hstack, hm.map_slotOf hscopes _ fun _ => .inl, ← hm.stack]
    exact congrArg Array.toList (Environment.stack_pushRoot c.env)
  · rw [hroots, List.map_cons, hm.map_slotOf hscopes _ fun _ h => .inr (.inl h), ← hm.roots,
      hm.slotOf_fresh hscopes, ← hcid]
    rfl
  · exact hm.captures.trans (map_rename hscopes _ hm.present_captures).symm

end Mirrors

lemma mirrors_initial : initial.Mirrors .initial := by
  have hframe : Ledger.initial.env.arena.frame? Environment.global = some ⟨none, 0, ⟨0⟩, false, []⟩ := rfl
  have hglobal : initial.Present Environment.global := by decide
  refine ⟨sound_initial, rfl, rfl, ?_, rfl, sound_initial.arena.layered, rfl, rfl, rfl, ?_, ?_⟩
  · intro i hi
    obtain rfl : i = 0 := Nat.lt_one_iff.mp hi
    exact Option.ne_none_iff_exists'.mpr ⟨_, hframe⟩
  · rintro id (hid | hid | hid)
    · exact absurd hid List.not_mem_nil
    · rwa [List.mem_singleton.mp hid]
    · exact absurd hid List.not_mem_nil
  · intro id hid
    obtain rfl : id = Environment.global := ScopeId.index_injective (Nat.lt_one_iff.mp hid.1)
    exact ⟨_, hframe, hframe, by simp, by simp⟩

lemma Mirrors.step (hm : c.Mirrors l) (r : Request) (hr : ∀ i ∈ r.scopes, c.Present ⟨i⟩) :
    (c.step r).Mirrors (l.step r) := by
  cases r with
  | push parent => exact hm.push parent fun i hi => hr i (by simpa [Request.scopes] using hi)
  | pushRoot => exact hm.pushRoot
  | capture i => exact hm.capture (hr i (List.mem_singleton_self i))
  | duplicate n => exact hm.duplicate n
  | drop n => exact hm.drop n
  | entrust i n => exact hm.entrust (hr i (List.mem_singleton_self i)) n
  | reclaim i n => exact hm.reclaim (hr i (List.mem_singleton_self i)) n
  | define i name v => exact hm.define (hr i (List.mem_singleton_self i)) name v
  | set i name v => exact hm.set (hr i (List.mem_singleton_self i)) name v
  | release mark => exact hm.release mark
  | sweep => exact hm.sweep

lemma Mirrors.run (hm : c.Mirrors l) (rs : List Request) (hrs : c.NamesPresent rs) :
    (c.run rs).Mirrors (l.run rs) := by
  induction rs generalizing c l with
  | nil => exact hm
  | cons r rs ih => exact ih (hm.step r hrs.1) hrs.2

lemma scopes_step (c : Client) (r : Request) : c.scopes <+: (c.step r).scopes := by
  cases r with
  | push parent => exact List.prefix_append _ _
  | pushRoot => exact List.prefix_append _ _
  | duplicate n =>
    rw [step]
    split <;> exact List.prefix_rfl
  | drop n =>
    rw [step]
    split <;> exact List.prefix_rfl
  | entrust i n =>
    rw [step]
    split <;> exact List.prefix_rfl
  | _ => exact List.prefix_rfl

lemma scopes_run (c : Client) (rs : List Request) : c.scopes <+: (c.run rs).scopes := by
  induction rs generalizing c with
  | nil => exact List.prefix_rfl
  | cons r rs ih => exact (c.scopes_step r).trans (ih (c.step r))

structure Agrees (c : Client) (l : Ledger) : Prop where
  ledger : l.env.arena.free = #[] ∧ ∀ i < c.scopes.length, (l.env.arena.scope? ⟨i⟩).isSome
  stack : c.env.arena.stack.toList = l.env.arena.stack.toList.map c.slotOf
  roots : c.roots = l.roots.map c.slotOf
  captures : c.captures = l.captures.map (.rename c.slotOf)
  heap : c.env.heap = l.env.heap
  live : ∀ id, c.Live l id → c.Present id
  injective : ∀ i j, c.Present i → c.Present j → c.slotOf i = c.slotOf j → i = j
  get : ∀ id, c.Present id → ∀ name, c.env.get (c.slotOf id) name = l.env.get id name
  lookup : ∀ id, c.Present id → ∀ name, c.env.lookup (c.slotOf id) name = l.env.lookup id name
  parent : ∀ id, c.Present id → c.env.arena.parent (c.slotOf id) = (l.env.arena.parent id).map c.slotOf
  depth : ∀ id, c.Present id → c.env.arena.depth (c.slotOf id) = l.env.arena.depth id
  root : ∀ id, c.Present id → c.env.arena.root (c.slotOf id) = c.slotOf (l.env.arena.root id)
  bindings : ∀ id, c.Present id → (c.env.bindings (c.slotOf id)).1 = (l.env.bindings id).1
  owned : ∀ id, c.Present id → (c.env.arena.scope? (c.slotOf id)).map Scope.owned =
    (l.env.arena.scope? id).map fun s => s.owned.map (.rename c.slotOf)

lemma Mirrors.lookup_eq (hm : c.Mirrors l) (hid : c.Present id) (name : String) :
    c.env.lookup (c.slotOf id) name = l.env.lookup id name := by
  rw [Environment.lookup_eq, Environment.lookup_eq, hm.layers_eq hid, hm.heap]

lemma Mirrors.depth_eq (hm : c.Mirrors l) (hid : c.Present id) :
    c.env.arena.depth (c.slotOf id) = l.env.arena.depth id := by
  obtain ⟨f, hf, hf', -⟩ := hm.frame id hid
  rw [Arena.depth_of_frame hf, Arena.depth_of_frame hf']
  rfl

lemma Mirrors.owned_eq (hm : c.Mirrors l) (hid : c.Present id) :
    (c.env.arena.scope? (c.slotOf id)).map Scope.owned =
      (l.env.arena.scope? id).map fun s => s.owned.map (.rename c.slotOf) := by
  obtain ⟨f, hf, hf', -⟩ := hm.frame id hid
  obtain ⟨s, hs, rfl⟩ := Arena.exists_scope hf
  obtain ⟨t, ht, heq⟩ := Arena.exists_scope hf'
  rw [hs, ht]
  exact congrArg (some ∘ Frame.owned) heq

lemma Mirrors.agrees (hm : c.Mirrors l) : c.Agrees l where
  ledger := ⟨hm.free, fun i hi => Arena.isSome_scope?.mpr (hm.full i (hm.size ▸ hi))⟩
  stack := hm.stack
  roots := hm.roots
  captures := hm.captures
  heap := hm.heap
  live := fun _ => hm.present_of_live
  injective := fun _ _ hi hj => hi.injective hj
  get := fun _ hid name => congrArg (·.getD .undefined) (hm.lookup_eq hid name)
  lookup := fun _ => hm.lookup_eq
  parent := fun _ => hm.parent_eq
  depth := fun _ => hm.depth_eq
  root := fun _ => hm.root_eq
  bindings := fun _ hid => Environment.fst_bindings_congr hm.heap (hm.own_eq hid)
  owned := fun _ => hm.owned_eq

/-- Whatever a client asks for of scopes that were not freed, it cannot tell its environment from one that
frees no slot, and the scopes stay in their slots. -/
theorem recycling_unobservable (rs : List Request) (hrs : initial.NamesPresent rs) :
    (initial.run rs).Agrees (Ledger.initial.run rs) ∧
      ∀ after, (initial.run rs).scopes <+: (initial.run (rs ++ after)).scopes := by
  refine ⟨(mirrors_initial.run rs hrs).agrees, fun after => ?_⟩
  rw [run, run, List.foldl_append]
  exact scopes_run _ after

theorem captured_pair_recycled :
    let rs := [.push (some 0), .define 1 "x" (.number 7), .push (some 1), .capture 2, .release 0, .sweep,
      .set 1 "x" (.number 8), .push (some 2), .duplicate 0, .pushRoot, .drop 1, .release 0, .drop 0,
      .sweep, .push (some 4), .push (some 5), .push none]
    -- a variable of the scope 9 has a function that captures the scope 8, and both go with the release
    let f := .function 0 ((initial.run (rs ++ [.push (some 7)])).slot 8)
      ⟨[], .scalar .builtin (.number 1)⟩ .undefined
    let rs' := rs ++ [.push (some 7), .push none, .define 9 "f" f, .capture 8, .entrust 9 0, .release 3]
    initial.NamesPresent rs ∧ (initial.run rs).Agrees (Ledger.initial.run rs) ∧
      (initial.run rs).slot 5 = (initial.run rs).slot 1 ∧
      initial.NamesPresent rs' ∧ (initial.run rs').Agrees (Ledger.initial.run rs') ∧
      ¬ (initial.run rs').Present ⟨8⟩ ∧ ¬ (initial.run rs').Present ⟨9⟩ := by
  intro rs f rs'
  have hrs : initial.NamesPresent rs := by decide +kernel
  have hrs' : initial.NamesPresent rs' := by decide +kernel
  exact ⟨hrs, (recycling_unobservable rs hrs).1, by decide +kernel, hrs', (recycling_unobservable rs' hrs').1,
    by decide +kernel, by decide +kernel⟩

end DiceLang.Client

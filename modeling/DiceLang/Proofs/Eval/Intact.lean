import DiceLang.Proofs.Eval.Safe
import DiceLang.Proofs.TwoRuns.InOrder

/-! Every form of expression is safe if nested evaluations are, and so nothing dangles in a session, whatever
it is asked for. -/

namespace DiceLang

namespace Eval

variable {α β : Type} {cs cs' : Finset Container} {v : Value}

def AsksSafely (again : Again) : Prop :=
  ∀ (cs : Finset Container) (e : Expr) (scope : ScopeId) (target : Option Kind),
    Safe cs (again e scope target) Value.Stored

section Forms

variable {again : Again} (asks : AsksSafely again) (scope : ScopeId)

include asks

lemma safe_argumentValues {binding : Binding} (hb : ∀ x ∈ binding, ∀ v ∈ x.2, Value.Stored cs v) :
    Safe cs (argumentValues again scope binding) Entries.Stored := by
  induction binding generalizing cs with
  | nil => exact safe_pure Entries.stored_nil
  | cons x rest ih =>
    obtain ⟨⟨name, fallback⟩, bound⟩ := x
    obtain ⟨hbound, hrest⟩ := List.forall_mem_cons.mp hb
    have hnext (cs' : Finset Container) (v : Value) (hle : cs ⊆ cs') (hv : v.Stored cs') :
        Safe cs' (do return (name, v) :: (← argumentValues again scope rest)) Entries.Stored := by
      refine (ih fun x hx w hw => (hrest x hx w hw).mono hle).bind fun cs'' vs hle' hvs => ?_
      exact safe_pure (List.forall_mem_cons.mpr ⟨hv.mono hle', hvs⟩)
    cases bound with
    | some v => exact (safe_pure (hbound v rfl)).bind hnext
    | none =>
      cases fallback with
      | some e => exact (asks cs e scope none).bind hnext
      | none => exact hnext cs .undefined subset_rfl trivial

omit asks in
lemma safe_defineAll {vs : List (String × Value)} (hvs : Entries.Stored cs vs) :
    Safe cs (defineAll scope vs) fun _ _ => True := by
  induction vs generalizing cs with
  | nil => exact safe_pure trivial
  | cons x vs ih =>
    obtain ⟨hx, hvs⟩ := List.forall_mem_cons.mp hvs
    exact (safe_define scope x.1 hx).bind fun cs' _ hle _ => ih (Entries.Stored.mono hvs hle)

lemma safe_call (site : Expr) (held : ScopeId) (f : Lambda) {owner : Value} (ho : owner.Stored cs)
    {positional : List Value} (hp : AllStored cs positional) {named : List (String × Value)}
    (hn : Entries.Stored cs named) (target : Option Kind) :
    Safe cs (call again site held f owner positional named target) Value.Stored := by
  rw [call.eq_def]
  cases hb : bind f.params positional named with
  | error _ => exact safe_fail site _
  | ok binding =>
    have hbound : ∀ x ∈ binding, ∀ v ∈ x.2, Value.Stored cs v := by
      refine forall_bind (fun p _ => nofun) (fun p _ v hv => ?_) (fun x hx p _ => ?_) hb
      · rintro _ ⟨⟩
        exact hp v hv
      · rintro _ ⟨⟩
        exact hn x hx
    refine (safe_argumentValues asks held hbound).bind fun cs₁ vs hle hvs => ?_
    refine safe_inScope held fun cs₂ inner hle' => ?_
    refine (safe_defineAll inner (hvs.mono hle')).bind fun cs₃ _ hle'' _ => ?_
    refine (safe_define inner _ (ho.mono (hle.trans (hle'.trans hle'')))).bind fun cs₄ _ _ _ => ?_
    exact asks cs₄ f.body inner target

lemma safe_callFor (k : Kind) (hv : v.Stored cs) : Safe cs (callFor again k v) Value.Stored := by
  cases v with
  | scalar | list | map => exact safe_pure hv
  | function i held f owner =>
    have ho : owner.Stored cs := hv
    exact safe_call asks f.body held f ho allStored_nil Entries.stored_nil (some k)

lemma safe_evaluateAll (es : List Expr) : Safe cs (evaluateAll again scope es) fun _ _ => True := by
  induction es generalizing cs with
  | nil => exact safe_pure trivial
  | cons e es ih => exact (asks cs e scope none).bind fun _ _ _ _ => ih

lemma safe_values (es : List Expr) : Safe cs (values again scope es) AllStored := by
  induction es generalizing cs with
  | nil => exact safe_pure allStored_nil
  | cons e es ih =>
    refine (asks cs e scope none).bind fun cs₁ v _ hv => ih.bind fun cs₂ vs hle hvs => ?_
    exact safe_pure (List.forall_mem_cons.mpr ⟨hv.mono hle, hvs⟩)

lemma safe_namedValues (es : List (String × Expr)) :
    Safe cs (namedValues again scope es) Entries.Stored := by
  induction es generalizing cs with
  | nil => exact safe_pure Entries.stored_nil
  | cons x es ih =>
    refine (asks cs x.2 scope none).bind fun cs₁ v _ hv => ih.bind fun cs₂ vs hle hvs => ?_
    exact safe_pure (List.forall_mem_cons.mpr ⟨hv.mono hle, hvs⟩)

lemma safe_number (e : Expr) : Safe cs (number again scope e) fun _ _ => True := by
  refine (asks cs e scope _).bind fun _ v _ _ => ?_
  split <;> exact safe_pure trivial

lemma safe_boolean (e : Expr) : Safe cs (boolean again scope e) fun _ _ => True := by
  refine (asks cs e scope _).bind fun _ v _ _ => ?_
  split <;> exact safe_pure trivial

lemma safe_string (e : Expr) : Safe cs (string again scope e) fun _ _ => True := by
  refine (asks cs e scope _).bind fun _ v _ _ => ?_
  split <;> exact safe_pure trivial

lemma safe_list (e : Expr) : Safe cs (list again scope e) fun cs r => .list r ∈ cs := by
  refine (asks cs e scope _).bind fun cs' v _ hv => ?_
  rw [listOf.eq_def]
  split
  · exact safe_pure hv
  · refine safe_onHeap ?_
    rintro h hh rfl
    exact ⟨hh.newList allStored_nil, (h.extends_newList []).grows, (h.list_newList_mem []).1⟩

lemma safe_both (left right : Expr) :
    Safe cs (both again scope left right) fun cs x => x.1.Stored cs ∧ x.2.Stored cs := by
  refine (asks cs left scope none).bind fun cs₁ a _ ha => ?_
  refine (asks cs₁ right scope none).bind fun cs₂ b hle hb => ?_
  exact safe_pure ⟨ha.mono hle, hb⟩

lemma safe_numbers (left right : Expr) : Safe cs (numbers again scope left right) fun _ _ => True :=
  (safe_number asks scope left).bind fun _ _ _ _ =>
    (safe_number asks scope right).bind fun _ _ _ _ => safe_pure trivial

omit asks in
lemma safe_within {f : Folding Eval α} (hcontents : f.contents = contents)
    (hdeep : f.tooDeep = unfinished .convert)
    (hleaf : ∀ cs v, Value.Stored cs v → Safe cs (f.leaf v) fun _ _ => True) (depth : Nat)
    (path : List Container) (hv : v.Stored cs) :
    Safe cs (f.within depth path v) fun _ _ => True := by
  induction depth generalizing cs path v with
  | zero =>
    rw [Folding.within, hdeep]
    exact safe_throw _
  | succ depth ih =>
    rw [Folding.within]
    split
    · exact hleaf cs v hv
    next c _ =>
      split
      · exact safe_pure trivial
      · rw [hcontents]
        refine (safe_contents c).bind fun cs' vs _ hvs => safe_foldlM (fun cs b w hw => ?_) hvs _
        exact (ih _ hw).bind fun _ _ _ _ => safe_pure trivial

lemma safe_text (hv : v.Stored cs) :
    Safe cs (do (textFolding again).within (← budget) [] v) fun _ _ => True := by
  refine safe_read fun m _ _ => safe_within rfl rfl (fun cs v hv => ?_) _ [] hv
  cases v with
  | scalar s => exact safe_pure trivial
  | list | map | function =>
    refine (safe_callFor asks .string hv).bind fun _ w _ _ => ?_
    split <;> exact safe_pure trivial

lemma safe_numeric (hv : v.Stored cs) :
    Safe cs (do (numberFolding again).within (← budget) [] v) fun _ _ => True := by
  refine safe_read fun m _ _ => safe_within rfl rfl (fun cs v hv => ?_) _ [] hv
  cases v with
  | scalar s => exact safe_pure trivial
  | list | map | function =>
    refine (safe_callFor asks .number hv).bind fun _ w _ _ => ?_
    split <;> exact safe_pure trivial

omit asks in
lemma safe_wrap (v : Value) : Safe cs (wrap scope v) Value.Stored := by
  refine safe_read fun m _ _ => ?_
  split
  · exact safe_newFunction scope _ trivial
  · exact safe_throw _

omit asks in
lemma safe_toListValue (hv : v.Stored cs) : Safe cs (toListValue v) Value.Stored := by
  have hnew {h : Heap} (hh : h.Intact) {vs : List Value} (hvs : AllStored h.containers vs) :
      (h.newList vs).2.Intact ∧ h.containers ⊆ (h.newList vs).2.containers ∧
        Value.Stored (h.newList vs).2.containers (.list (h.newList vs).1) :=
    ⟨hh.newList hvs, (h.extends_newList vs).grows, (h.list_newList_mem vs).1⟩
  refine safe_onHeap ?_
  rintro h hh rfl
  dsimp only
  rw [Heap.toList.eq_def]
  split
  · exact ⟨hh, subset_rfl, hv⟩
  · exact hnew hh (hh.contents (.map _))
  · exact hnew hh allStored_nil
  · exact hnew hh (List.forall_mem_singleton.mpr hv)

omit asks in
lemma safe_toMapValue (hv : v.Stored cs) : Safe cs (toMapValue v) Value.Stored := by
  have hnew {h : Heap} (hh : h.Intact) {es : List (String × Value)} (hes : Entries.Proper h.containers es) :
      (h.newMap es).2.Intact ∧ h.containers ⊆ (h.newMap es).2.containers ∧
        Value.Stored (h.newMap es).2.containers (.map (h.newMap es).1) :=
    ⟨hh.newMap hes, (h.extends_newMap es).grows, (h.map_newMap_mem es).1⟩
  refine safe_onHeap ?_
  rintro h hh rfl
  dsimp only
  rw [Heap.toMap.eq_def]
  split
  · exact ⟨hh, subset_rfl, hv⟩
  next r =>
    refine hnew hh (Entries.proper_ofList fun e he => ?_)
    obtain ⟨x, hx, rfl⟩ := List.mem_map.mp he
    exact hh.items r x.1 (List.fst_mem_of_mem_zipIdx hx)
  · exact hnew hh Entries.proper_nil
  · exact hnew hh ⟨List.forall_mem_singleton.mpr hv, List.nodup_singleton _⟩

lemma safe_convertTo (k : Kind) (hv : v.Stored cs) :
    Safe cs (convertTo again scope k v) Value.Stored := by
  rw [convertTo.eq_def]
  split
  · exact safe_pure hv
  · split
    · exact safe_pure trivial
    · exact safe_callFor asks _ hv
    · rw [← bind_assoc]
      exact (safe_text asks hv).bind fun _ _ _ _ => safe_pure trivial
    · exact safe_read fun _ _ _ => safe_pure trivial
    · rw [← bind_assoc]
      exact (safe_numeric asks hv).bind fun _ _ _ _ => safe_pure trivial
    · exact safe_toListValue hv
    · exact safe_toMapValue hv
    · exact safe_wrap scope v

lemma safe_convert (target : Option Kind) (hv : v.Stored cs) :
    Safe cs (convert again scope target v) Value.Stored := by
  cases target with
  | none => exact safe_pure hv
  | some k => exact safe_convertTo asks scope k hv

lemma safe_elements (hv : v.Stored cs) : Safe cs (elements again scope v) AllStored := by
  refine (safe_convertTo asks scope .list hv).bind fun _ w _ _ => ?_
  split
  · exact safe_items _
  · exact safe_pure allStored_nil

lemma safe_namedElements (hv : v.Stored cs) : Safe cs (namedElements again scope v) Entries.Proper := by
  refine (safe_convertTo asks scope .map hv).bind fun _ w _ _ => ?_
  split
  · exact safe_entries _
  · exact safe_pure Entries.proper_nil

lemma safe_interpolate (fs : List Fragment) :
    Safe cs (interpolate again scope fs) fun _ _ => True := by
  have hfragment (cs : Finset Container) (f : Fragment) :
      Safe cs (fragment again scope f) fun _ _ => True := by
    cases f with
    | text s => exact safe_pure trivial
    | hole name =>
      refine (safe_valueOf scope name).bind fun _ v _ hv => ?_
      refine (safe_convertTo asks scope .string hv).bind fun _ w _ _ => ?_
      split <;> exact safe_pure trivial
  induction fs generalizing cs with
  | nil => exact safe_pure trivial
  | cons f fs ih =>
    exact (hfragment cs f).bind fun _ _ _ _ => ih.bind fun _ _ _ _ => safe_pure trivial

omit asks in
lemma safe_destination (space : Option String) : Safe cs (destination scope space) fun _ _ => True := by
  cases space with
  | none => exact (safe_bindings scope).imp fun _ _ _ _ => trivial
  | some name =>
    refine safe_read fun m _ _ => ?_
    split
    · exact safe_pure trivial
    · have hnew : Safe cs (modifyGet fun m => m.onHeap fun h => h.newMap []) fun cs r => .map r ∈ cs := by
        refine safe_onHeap ?_
        rintro h hh rfl
        exact ⟨hh.newMap Entries.proper_nil, (h.extends_newMap []).grows,
          (h.map_newMap_mem []).1⟩
      refine hnew.bind fun cs' r _ hr => ?_
      have hstored : Value.Stored cs' (.map r) := hr
      exact (safe_setVariable scope name hstored).bind fun _ _ _ _ => safe_pure trivial

lemma safe_loaded (site : Expr) (address : String) (answer : Except FetchError String) :
    Safe cs (loaded again site address answer) fun _ _ => True := by
  rw [loaded.eq_def]
  split
  · exact safe_fail site _
  · split
    · exact safe_fail site _
    · have hroot : Safe cs (modifyGet fun m => m.onEnv Environment.pushRoot) fun _ _ => True :=
        safe_onEnv fun env he _ => ⟨he.pushRoot, trivial⟩
      refine hroot.bind fun _ scope _ _ => (safe_evaluateAll asks scope _).bind fun _ _ _ _ => ?_
      exact (safe_bindings scope).imp fun _ _ _ _ => trivial

lemma safe_resolved (site : Expr) (address : String) :
    Safe cs (resolved again site address) fun _ _ => True := by
  rintro m hm rfl
  rw [resolved_eq, resolvedBy_run]
  split
  · exact .ok hm subset_rfl trivial
  · cases m.imports.begin? address with
    | none => exact .error hm subset_rfl
    | some imports =>
      have hloaded := safe_loaded asks site address (m.settings.fetch address)
        { m with imports := imports } hm rfl
      exact hloaded.onExit (fun r n hn => ⟨hn, rfl⟩) fun n hn => ⟨hn, rfl⟩

lemma safe_importing (site : Expr) (space : Option String) (address : Expr) :
    Safe cs (importing again site scope space address) fun _ _ => True := by
  refine (safe_string asks scope address).bind fun _ text _ _ => ?_
  refine (safe_resolved asks site text).bind fun _ source _ _ => ?_
  refine (safe_destination scope space).bind fun _ target _ _ => ?_
  refine (safe_entries source).bind fun _ added _ hadded => ?_
  refine (safe_entries target).bind fun _ old hle hold => ?_
  exact safe_setEntries target (hold.putAll (hadded.mono hle).stored)

lemma safe_step (loop : ForEach) {index item : Value} (hindex : index.Stored cs)
    (hitem : item.Stored cs) :
    Safe cs (step again loop scope index item) fun cs r => ∀ v ∈ r, Value.Stored cs v := by
  have hholds (cs : Finset Container) : Safe cs (holds again scope loop.condition) fun _ _ => True := by
    cases loop.condition with
    | none => exact safe_pure trivial
    | some e => exact safe_boolean asks scope e
  have hbody (cs : Finset Container) : Safe cs
      (do if ← holds again scope loop.condition then return some (← again loop.out scope none)
          return none) fun cs (r : Option Value) => ∀ v ∈ r, v.Stored cs := by
    refine (hholds cs).bind fun cs₁ b _ _ => ?_
    cases b with
    | true =>
      refine (asks cs₁ loop.out scope none).bind fun cs₂ v _ hv => safe_pure ?_
      rintro _ ⟨⟩
      exact hv
    | false => exact safe_pure nofun
  refine (safe_define scope loop.item hitem).bind fun cs₁ _ hle _ => ?_
  cases loop.index with
  | none => exact hbody cs₁
  | some name => exact (safe_define scope name (hindex.mono hle)).bind fun cs₂ _ _ _ => hbody cs₂

lemma safe_overItems (loop : ForEach) (i : Nat) {items : List Value} (hi : AllStored cs items)
    {results : Array Value} (hr : AllStored cs results.toList) :
    Safe cs (overItems again loop scope i items results) fun cs vs => AllStored cs vs.toList := by
  induction items generalizing cs i results with
  | nil => exact safe_pure hr
  | cons item rest ih =>
    obtain ⟨hitem, hrest⟩ := List.forall_mem_cons.mp hi
    refine (safe_step asks scope loop (Value.stored_scalar _) hitem).bind fun cs' r hle hv => ?_
    refine ih _ (AllStored.mono hrest hle) ?_
    rw [Array.toList_append]
    refine List.forall_mem_append.mpr ⟨hr.mono hle, fun v hmem => hv v ?_⟩
    simpa using hmem

lemma safe_overEntries (loop : ForEach) {items : List (String × Value)} (hi : Entries.Stored cs items)
    {results : Array (String × Value)} (hr : Entries.Stored cs results.toList)
    (hkeys : (results.toList.map Prod.fst ++ items.map Prod.fst).Nodup) :
    Safe cs (overEntries again loop scope items results) fun cs es => Entries.Proper cs es.toList := by
  induction items generalizing cs results with
  | nil =>
    rw [List.map_nil, List.append_nil] at hkeys
    exact safe_pure ⟨hr, hkeys⟩
  | cons item rest ih =>
    obtain ⟨hitem, hrest⟩ := List.forall_mem_cons.mp hi
    refine (safe_step asks scope loop (Value.stored_scalar _) hitem).bind fun cs' r hle hv => ?_
    refine ih (Entries.Stored.mono hrest hle) ?_ ?_
    · rw [Array.toList_append]
      refine List.forall_mem_append.mpr ⟨hr.mono hle, fun e he => ?_⟩
      obtain ⟨v, hmem, rfl⟩ := Array.mem_map.mp (Array.mem_toList_iff.mp he)
      exact hv v (by simpa using hmem)
    · cases r with
      | none =>
        refine hkeys.sublist (List.Sublist.append ?_ (List.sublist_cons_self _ _))
        simp
      | some v => simpa using hkeys

lemma safe_forEach (site container : Expr) (loop : ForEach) :
    Safe cs (forEach again site container scope loop) Value.Stored := by
  have hbody (cs : Finset Container) (v : Value) : Safe cs (overContainer again site scope loop v)
      Value.Stored := by
    unfold overContainer
    split
    · refine (safe_items _).bind fun cs₁ all _ hall => ?_
      refine (safe_inScope scope fun cs₂ inner hle => ?_).bind fun _ results _ hr => safe_newList hr
      exact safe_overItems asks inner loop 0 (hall.mono hle) allStored_nil
    · refine (safe_entries _).bind fun cs₁ all _ hall => ?_
      refine (safe_inScope scope fun cs₂ inner hle => ?_).bind fun _ results _ hr => safe_newMap hr
      exact safe_overEntries asks inner loop (hall.mono hle).stored Entries.stored_nil hall.keys
    · exact safe_fail site _
  refine (asks cs container scope none).bind fun cs₁ v _ hv => ?_
  dsimp only
  split
  · exact (safe_convertTo asks scope .list hv).bind fun cs₂ w _ _ => hbody cs₂ w
  · exact (safe_pure hv).bind fun cs₂ w _ _ => hbody cs₂ w

omit asks in
lemma allStored_push {vs : Array Value} (hvs : AllStored cs vs.toList) (hv : v.Stored cs) :
    AllStored cs (vs.push v).toList := by
  rw [Array.toList_push]
  exact List.forall_mem_append.mpr ⟨hvs, List.forall_mem_singleton.mpr hv⟩

lemma safe_rounds (form : RepeatForm) (body condition : Expr) (limit : Option Int64) (fuel : Nat)
    {results : Array Value} (hr : AllStored cs results.toList) :
    Safe cs (rounds again form body condition limit scope fuel results)
      fun cs vs => AllStored cs vs.toList := by
  induction fuel generalizing cs results with
  | zero => exact safe_throw _
  | succ fuel ih =>
    cases form with
    | before =>
      rw [rounds]
      split
      · exact safe_pure hr
      · refine (safe_boolean asks scope condition).bind fun cs₁ b hle _ => ?_
        cases b with
        | true =>
          refine (asks cs₁ body scope none).bind fun cs₂ v hle' hv => ?_
          exact ih (allStored_push (hr.mono (hle.trans hle')) hv)
        | false => exact safe_pure (hr.mono hle)
    | after | once =>
      rw [rounds]
      refine (asks cs body scope none).bind fun cs₁ v hle hv => ?_
      have hpush := allStored_push (hr.mono hle) hv
      dsimp only
      split
      · exact safe_pure hpush
      · refine (safe_boolean asks scope condition).bind fun cs₂ b hle' _ => ?_
        cases b with
        | true => exact ih (hpush.mono hle')
        | false => exact safe_pure (hpush.mono hle')

lemma safe_repeating (form : RepeatForm) (body condition : Expr) (limit : Option Expr) :
    Safe cs (repeating again scope form body condition limit) Value.Stored := by
  have hloop (cs : Finset Container) (n : Option Int64) : Safe cs (do
      let bound := roundBound (← budget) n
      let results ← inScope scope fun inner => rounds again form body condition n inner bound #[]
      newList results.toList) Value.Stored := by
    refine safe_read fun m _ _ => ?_
    refine (safe_inScope scope fun cs₁ inner _ => ?_).bind fun _ results _ hr => safe_newList hr
    exact safe_rounds asks inner form body condition n _ allStored_nil
  cases limit with
  | none => exact hloop cs none
  | some e => exact (safe_number asks scope e).bind fun cs₁ n _ _ => hloop cs₁ (some n)

lemma safe_observe (mode : OutputMode) (e : Expr) (kind : Option Kind) :
    Safe cs (observe again scope mode e kind) fun _ _ => True := by
  have hsample (n : Nat) (cs : Finset Container) (d : Distribution) :
      Safe cs (sample again scope e kind n d) fun _ _ => True := by
    induction n generalizing cs d with
    | zero => exact safe_pure trivial
    | succ n ih =>
      refine (asks cs e scope kind).bind fun cs₁ v _ _ => ?_
      have hcount : Safe cs₁ (count v d) fun _ _ => True := safe_read fun _ _ _ => safe_pure trivial
      exact hcount.bind fun cs₂ d _ _ => ih cs₂ d
  cases mode with
  | roll => exact (asks cs e scope kind).bind fun _ _ _ _ => safe_pure trivial
  | sample =>
    refine safe_read fun m _ _ => ?_
    exact (hsample _ cs .empty).bind fun _ _ _ _ => safe_pure trivial

lemma safe_output (site : Expr) (mode : OutputMode) (e : Expr) (type : Option OutputType)
    (name : Option Expr) : Safe cs (output again site scope mode e type name) fun _ _ => True := by
  have hreport (cs : Finset Container) (text : String) (kind : Option Kind) :
      Safe cs (reporting site mode text e kind (observe again scope mode e kind)) fun _ _ => True := by
    have hstart : Safe cs (start site mode) fun _ _ => True := by
      rintro m hm rfl
      rw [start_run]
      split
      · exact .error hm subset_rfl
      · exact .ok hm subset_rfl trivial
    have hobserve (cs : Finset Container) :
        Safe cs (orAbandon (observe again scope mode e kind)) fun _ _ => True := by
      intro m hm hcs
      rw [orAbandon_run]
      exact (safe_observe asks scope mode e kind m hm hcs).onExit (fun _ n hn => ⟨hn, rfl⟩)
        fun n hn => ⟨hn, rfl⟩
    refine hstart.bind fun cs₁ _ _ _ => (hobserve cs₁).bind fun cs₂ outcome _ _ => ?_
    rintro m hm rfl
    exact .ok hm subset_rfl trivial
  refine safe_read fun m _ _ => ?_
  cases name with
  | some n => exact (safe_string asks scope n).bind fun cs₁ text _ _ => hreport cs₁ text _
  | none =>
    have hlabel : Safe cs (label scope e) fun _ _ => True := safe_read fun _ _ _ => safe_pure trivial
    exact hlabel.bind fun cs₁ text _ _ => hreport cs₁ text _

omit asks in
lemma safe_own {container : Value} (hc : container.Stored cs) (hv : v.Stored cs) :
    Safe cs (own container v) Value.Stored := by
  cases v with
  | scalar | list | map => exact safe_pure hv
  | function i scope f owner => exact safe_newFunction scope f hc

omit asks in
lemma proper_of_forall₂ {es xs : List (String × Value)}
    (h : List.Forall₂ (fun e x => x.1 = e.1 ∧ x.2.Stored cs) es xs) (hkeys : (es.map Prod.fst).Nodup) :
    Entries.Proper cs xs := by
  have hsame : xs.map Prod.fst = es.map Prod.fst ∧ Entries.Stored cs xs := by
    clear hkeys
    induction h with
    | nil => exact ⟨rfl, Entries.stored_nil⟩
    | cons hx _ ih =>
      rw [List.map_cons, List.map_cons, hx.1, ih.1]
      exact ⟨rfl, List.forall_mem_cons.mpr ⟨hx.2, ih.2⟩⟩
  exact ⟨hsame.2, hsame.1 ▸ hkeys⟩

omit asks in
lemma safe_readAt {h : Heap} (hh : h.Intact) (hle : h.containers ⊆ cs) (site : Expr)
    {container : Value} (hc : container.Stored cs) (path : List Container) (depth : Nat) (sub : Value) :
    Safe cs (readAt h site container path depth sub) Value.Stored := by
  induction depth generalizing cs sub path with
  | zero => exact safe_throw _
  | succ depth ih =>
    have hlist (subs : ListRef) : Safe cs
        (do newList (← (h.items subs).mapM (readAt h site container (.list subs :: path) depth)))
        Value.Stored := by
      refine (safe_mapM (P := fun cs _ v => v.Stored cs) (fun _ _ _ _ hle hv => hv.mono hle)
        fun cs' hle' sub _ => ih (hle.trans hle') (hc.mono hle') _ sub).bind fun _ vs _ hvs => ?_
      refine safe_newList fun v hmem => ?_
      obtain ⟨i, hi, rfl⟩ := List.getElem_of_mem hmem
      exact hvs.get (by rwa [hvs.length_eq]) hi
    have hmap (subs : MapRef) : Safe cs
        (do let read (e : String × Value) : Eval (String × Value) :=
              return (e.1, ← readAt h site container (.map subs :: path) depth e.2)
            newMap (← (h.entries subs).mapM read)) Value.Stored := by
      refine (safe_mapM (P := fun cs (e x : String × Value) => x.1 = e.1 ∧ x.2.Stored cs)
        (fun _ _ _ _ hle hx => ⟨hx.1, hx.2.mono hle⟩) fun cs' hle' e _ => ?_).bind fun _ xs _ hxs => ?_
      · refine (ih (hle.trans hle') (hc.mono hle') _ e.2).bind fun _ v _ hv => ?_
        exact safe_pure ⟨rfl, hv⟩
      · exact safe_newMap (proper_of_forall₂ hxs (hh.entries subs).keys)
    rw [readAt.eq_def]
    dsimp only
    split
    · exact safe_fail site _
    · exact safe_fail site _
    · exact safe_fail site _
    · exact safe_own hc (itemAt_of_forall trivial ((hh.items _).mono hle) _)
    · exact safe_own hc (((hh.entries _).mono hle).stored.get _)
    · exact hlist _
    · exact hlist _
    · exact hmap _
    · exact hmap _
    · exact safe_fail site _

omit asks in
lemma safe_subscript (site : Expr) {container : Value} (hc : container.Stored cs) (key : Value) :
    Safe cs (subscript site container key) Value.Stored :=
  safe_read fun _ hm hcs => safe_readAt hm.heap hcs.le site hc _ _ key

lemma safe_writeAt (site : Expr) (container : Value) (path : List Container) (depth : Nat) (sub : Value)
    (hv : v.Stored cs) :
    Safe cs (writeAt again site scope container path depth sub v) fun _ _ => True := by
  induction depth generalizing cs sub v path with
  | zero => exact safe_throw _
  | succ depth ih =>
    have hlist (subs : ListRef) : Safe cs
        (do let values ← elements again scope v
            let write (x : Value × Nat) : Eval Unit :=
              writeAt again site scope container (.list subs :: path) depth x.1
                (values.getD x.2 .undefined)
            (← items subs).zipIdx.forM write) fun _ _ => True := by
      refine (safe_elements asks scope hv).bind fun cs₁ values _ hvalues => ?_
      refine (safe_items subs).bind fun cs₂ all hle _ => safe_forM fun cs₃ x hle' => ih _ x.1 ?_
      rw [List.getD_eq_getElem?_getD]
      refine Value.stored_getD fun w hw => ?_
      exact (hvalues w (List.mem_of_getElem? hw)).mono (hle.trans hle')
    have hmap (subs : MapRef) : Safe cs
        (do let values ← namedElements again scope v
            let write (x : String × Value) : Eval Unit :=
              writeAt again site scope container (.map subs :: path) depth x.2
                ((Entries.get? values x.1).getD .undefined)
            (← entries subs).forM write) fun _ _ => True := by
      refine (safe_namedElements asks scope hv).bind fun cs₁ values _ hvalues => ?_
      refine (safe_entries subs).bind fun cs₂ all hle _ => safe_forM fun cs₃ x hle' => ih _ x.2 ?_
      exact (hvalues.mono (hle.trans hle')).stored.get x.1
    rw [writeAt.eq_def]
    dsimp only
    split
    · exact safe_fail site _
    · exact safe_fail site _
    · exact safe_fail site _
    · refine (safe_items _).bind fun cs₁ old hle hold => ?_
      have hset (r : ListRef) (i : Nat) {cs₂ : Finset Container} (hle₂ : cs₁ ⊆ cs₂) :
          Safe cs₂ (setItems r (putItem old i v)) fun _ _ => True :=
        safe_setItems r (putItem_of_forall trivial (AllStored.mono hold hle₂) i
          (hv.mono (hle.trans hle₂)))
      split
      · split
        · exact (safe_makeRoom _).bind fun _ _ hle₂ _ => hset _ _ hle₂
        · exact hset _ _ subset_rfl
      · exact safe_fail site _
    · refine (safe_entries _).bind fun cs₁ old hle hold => ?_
      exact safe_setEntries _ (hold.put _ (hv.mono hle))
    · exact hlist _
    · exact hlist _
    · exact hmap _
    · exact hmap _
    · exact safe_fail site _

omit asks in
lemma safe_assignItems {targets : List Expr}
    (ht : ∀ e ∈ targets, ∀ cs v, Value.Stored cs v → Safe cs (assign again scope e v) fun _ _ => True)
    {vs : List Value} (hvs : AllStored cs vs) :
    Safe cs (assignItems again scope targets vs) fun _ _ => True := by
  induction targets generalizing cs vs with
  | nil => exact safe_pure trivial
  | cons e targets ih =>
    obtain ⟨he, ht⟩ := List.forall_mem_cons.mp ht
    have hhead : (vs.headD .undefined).Stored cs := by
      cases vs with
      | nil => trivial
      | cons v vs => exact hvs v List.mem_cons_self
    refine (he cs _ hhead).bind fun cs' _ hle _ => ih ht fun v hv => ?_
    exact (hvs v (List.mem_of_mem_tail hv)).mono hle

omit asks in
lemma safe_assignEntries {targets : List (String × Expr)}
    (ht : ∀ e ∈ targets.map Prod.snd, ∀ cs v, Value.Stored cs v →
      Safe cs (assign again scope e v) fun _ _ => True)
    {es : List (String × Value)} (hes : Entries.Stored cs es) :
    Safe cs (assignEntries again scope targets es) fun _ _ => True := by
  induction targets generalizing cs with
  | nil => exact safe_pure trivial
  | cons x targets ih =>
    rw [List.map_cons, List.forall_mem_cons] at ht
    exact (ht.1 cs _ (hes.get x.1)).bind fun cs' _ hle _ => ih ht.2 (hes.mono hle)

lemma safe_assign (target : Expr) (hv : v.Stored cs) :
    Safe cs (assign again scope target v) fun _ _ => True := by
  induction target using Expr.children_induction generalizing cs v with
  | step e ih =>
    have hparts : ∀ c ∈ e.children, ∀ cs v, Value.Stored cs v →
        Safe cs (assign again scope c v) fun _ _ => True := fun c hc _ _ hv => ih c hc hv
    rw [assign.eq_def]
    split
    · exact safe_setVariable scope _ hv
    · refine (asks cs _ scope none).bind fun cs₁ container hle _ => ?_
      refine (asks cs₁ _ scope none).bind fun cs₂ key hle' _ => safe_read fun m _ _ => ?_
      exact safe_writeAt asks scope _ container _ _ key (hv.mono (hle.trans hle'))
    · exact (safe_elements asks scope hv).bind fun _ vs _ hvs => safe_assignItems scope hparts hvs
    · refine (safe_namedElements asks scope hv).bind fun _ es _ hes => ?_
      exact safe_assignEntries scope hparts hes.stored
    · exact safe_fail _ _

omit asks in
lemma safe_scopeVariables (which : ScopeSelector) : Safe cs (scopeVariables scope which) Value.Stored := by
  have hbindings (scope : ScopeId) : Safe cs (do return .map (← bindings scope)) Value.Stored :=
    (safe_bindings scope).bind fun _ _ _ hr => safe_pure hr
  refine safe_read fun m _ _ => ?_
  cases which with
  | inner => exact hbindings scope
  | outer =>
    dsimp only
    split
    · exact hbindings _
    · exact safe_newMap Entries.proper_nil
  | outermost => exact hbindings _

lemma safe_throwOne (site : Expr) {die : Value} (hd : die.Stored cs) :
    Safe cs (throwOne again site die) Value.Stored := by
  cases die with
  | scalar | list | map =>
    refine (safe_throwDie _).bind fun cs' outcome _ hface => ?_
    cases outcome with
    | face v => exact safe_pure (hface v rfl)
    | unrollable k => exact safe_fail site _
    | call | unsettled => exact safe_throw _
  | function i held f owner =>
    have ho : owner.Stored cs := hd
    exact safe_call asks site held f ho allStored_nil Entries.stored_nil none

lemma safe_throwMany (site : Expr) {die : Value} (hd : die.Stored cs) (n : Nat)
    {faces : Array Value} (hf : AllStored cs faces.toList) :
    Safe cs (throwMany again site die n faces) fun cs vs => AllStored cs vs.toList := by
  induction n generalizing cs faces with
  | zero => exact safe_pure hf
  | succ n ih =>
    refine (safe_throwOne asks site hd).bind fun cs' face hle hface => ?_
    exact ih (hd.mono hle) (allStored_push (hf.mono hle) hface)

lemma safe_throwNumber (site : Expr) (n : Int64) {die : Value} (hd : die.Stored cs) :
    Safe cs (throwDice.throwNumber again site n die) Value.Stored := by
  have hthrow (cs : Finset Container) (hd : die.Stored cs) : Safe cs
      (do let faces := (← throwMany again site die n.toInt.toNat #[]).toList
          recordThrow die faces
          newList faces) Value.Stored := by
    refine (safe_throwMany asks site hd _ allStored_nil).bind fun cs₁ faces _ hf => ?_
    exact (safe_recordThrow die _).bind fun cs₂ _ hle _ => safe_newList (hf.mono hle)
  rw [throwDice.throwNumber.eq_def]
  split
  · have hfail : Safe cs (fail site (.diceNumber n)) fun _ (_ : PUnit) => True := safe_fail site _
    exact hfail.bind fun cs' _ hle _ => hthrow cs' (hd.mono hle)
  · exact hthrow cs hd

lemma safe_throwDice (site : Expr) (n : Int64) {die : Value} (hd : die.Stored cs) :
    Safe cs (throwDice again site n die) Value.Stored := by
  rw [throwDice.eq_def]
  split
  next i held f owner =>
    have ho : owner.Stored cs := hd
    split
    · exact safe_throwNumber asks site n hd
    · refine safe_call asks site held f ho (List.forall_mem_singleton.mpr ?_) Entries.stored_nil none
      exact Value.stored_scalar _
  · exact safe_throwNumber asks site n hd

omit asks in
lemma safe_draw (r : ListRef) : Safe cs (draw r) Value.Stored := by
  refine (safe_items r).bind fun cs₁ all _ hall => ?_
  split
  · exact safe_pure trivial
  · obtain ⟨hv, hrest⟩ := List.forall_mem_cons.mp hall
    exact (safe_setItems r hrest).bind fun cs₂ _ hle _ => safe_pure (Value.Stored.mono hv hle)

omit asks in
lemma safe_drawMany (n : Int64) (r : ListRef) : Safe cs (drawMany n r) Value.Stored := by
  refine (safe_items r).bind fun cs₁ all _ hall => ?_
  refine (safe_setItems r fun v hv => hall v (List.mem_of_mem_drop hv)).bind fun cs₂ _ hle _ => ?_
  exact safe_newList fun v hv => (hall v (List.mem_of_mem_take hv)).mono hle

omit asks in
lemma safe_reorder (order : Reorder) {r : ListRef} (hr : .list r ∈ cs) :
    Safe cs (reorder order r) Value.Stored := by
  have hset {cs₁ : Finset Container} (hle : cs ⊆ cs₁) {vs : List Value} (hvs : AllStored cs₁ vs) :
      Safe cs₁ (do setItems r vs; return .list r) Value.Stored :=
    (safe_setItems r hvs).bind fun _ _ hle' _ => safe_pure (hle' (hle hr))
  refine (safe_items r).bind fun cs₁ all hle hall => ?_
  cases order with
  | sort =>
    refine safe_read fun m _ _ => hset hle fun v hv => ?_
    exact hall v (List.mem_mergeSort.mp hv)
  | reverse => exact hset hle fun v hv => hall v (List.mem_reverse.mp hv)
  | shuffle => exact (safe_shuffle hall).bind fun _ vs hle' hvs => hset (hle.trans hle') hvs

lemma safe_append (site target source : Expr) :
    Safe cs (append again site scope target source) Value.Stored := by
  refine (asks cs target scope none).bind fun cs₁ container _ hc => ?_
  split
  · refine (safe_list asks scope source).bind fun cs₂ r hle₂ _ => ?_
    refine (safe_items r).bind fun cs₃ added hle₃ hadded => ?_
    refine (safe_items _).bind fun cs₄ old hle₄ hold => ?_
    have hall := List.forall_mem_append.mpr ⟨hold, hadded.mono hle₄⟩
    refine (safe_setItems _ hall).bind fun cs₅ _ hle₅ _ => safe_pure ?_
    exact hc.mono (hle₂.trans (hle₃.trans (hle₄.trans hle₅)))
  · refine (asks cs₁ source scope (some .map)).bind fun cs₂ v hle₂ _ => ?_
    split
    · refine (safe_entries _).bind fun cs₃ added hle₃ hadded => ?_
      refine (safe_entries _).bind fun cs₄ old hle₄ hold => ?_
      refine (safe_setEntries _ (hold.putAll (hadded.mono hle₄).stored)).bind ?_
      exact fun cs₅ _ hle₅ _ => safe_pure (hc.mono (hle₂.trans (hle₃.trans (hle₄.trans hle₅))))
    · exact safe_pure (hc.mono hle₂)
  · exact safe_fail site _

lemma safe_unary (site : Expr) (op : UnaryOp) (operand : Expr) :
    Safe cs (unary again site scope op operand) Value.Stored := by
  cases op with
  | plus | minus => exact (safe_number asks scope operand).bind fun _ _ _ _ => safe_pure trivial
  | not => exact (safe_boolean asks scope operand).bind fun _ _ _ _ => safe_pure trivial
  | best selector =>
    refine (safe_list asks scope operand).bind fun _ r _ _ => ?_
    refine (safe_items r).bind fun _ all _ hall => safe_read fun m _ _ => ?_
    exact safe_pure (Dice.best_of_forall trivial hall)
  | draw => exact (safe_list asks scope operand).bind fun _ r _ _ => safe_draw r
  | die =>
    refine (asks cs operand scope none).bind fun cs₁ die _ hd => ?_
    refine (safe_throwOne asks site hd).bind fun cs₂ face _ hface => ?_
    exact (safe_recordThrow die _).bind fun _ _ hle _ => safe_pure (hface.mono hle)
  | count =>
    refine (asks cs operand scope none).bind fun cs₁ v _ _ => safe_read fun m _ _ => ?_
    split
    · exact safe_pure trivial
    · exact safe_fail site _
  | convert k => exact asks cs operand scope (some k)
  | reorder order => exact (safe_list asks scope operand).bind fun _ _ _ hr => safe_reorder order hr

lemma safe_binary (site : Expr) (target : Option Kind) (op : BinaryOp) (left right : Expr) :
    Safe cs (binary again site scope target op left right) Value.Stored := by
  cases op with
  | arithmetic op =>
    refine (safe_numbers asks scope left right).bind fun _ x _ _ => ?_
    dsimp only
    split
    · exact safe_pure trivial
    · exact safe_fail site _
  | compare op => exact (safe_numbers asks scope left right).bind fun _ _ _ _ => safe_pure trivial
  | same | notSame =>
    refine (safe_both asks scope left right).bind fun cs₁ x _ _ => ?_
    exact safe_read fun m _ _ => safe_pure trivial
  | and =>
    refine (safe_boolean asks scope left).bind fun _ b _ _ => ?_
    split
    · exact (safe_boolean asks scope right).bind fun _ _ _ _ => safe_pure trivial
    · exact safe_pure trivial
  | or =>
    refine (safe_boolean asks scope left).bind fun _ b _ _ => ?_
    split
    · exact safe_pure trivial
    · exact (safe_boolean asks scope right).bind fun _ _ _ _ => safe_pure trivial
  | append => exact safe_append asks scope site left right
  | indexOf =>
    refine (safe_both asks scope left right).bind fun _ x _ _ => safe_read fun m _ _ => safe_pure ?_
    obtain ⟨i, hi⟩ := exists_indexOf_eq m.env.heap x.1 x.2
    rw [hi]
    trivial
  | range =>
    refine (safe_numbers asks scope left right).bind fun _ x _ _ => ?_
    refine (safe_makeRoom _).bind fun _ _ _ _ => safe_newList fun v hv => ?_
    obtain ⟨i, -, rfl⟩ := List.mem_map.mp hv
    trivial
  | bestOf selector =>
    refine (safe_number asks scope left).bind fun _ n _ _ => ?_
    refine (safe_list asks scope right).bind fun _ r _ _ => ?_
    refine (safe_items r).bind fun _ all _ hall => safe_read fun m _ _ => ?_
    exact safe_newList (Dice.bestOf_of_forall hall)
  | drawMany =>
    refine (safe_number asks scope left).bind fun _ n _ _ => ?_
    exact (safe_list asks scope right).bind fun _ r _ _ => safe_drawMany n r
  | dice =>
    refine (safe_number asks scope left).bind fun cs₁ n _ _ => ?_
    exact (asks cs₁ right scope none).bind fun _ die _ hd => safe_throwDice asks site n hd
  | assign =>
    refine (asks cs right scope none).bind fun _ v _ hv => ?_
    exact (safe_assign asks scope left hv).bind fun _ _ hle _ => safe_pure (hv.mono hle)
  | subscript =>
    exact (safe_both asks scope left right).bind fun _ x _ hx => safe_subscript site hx.1 x.2
  | sequence =>
    exact (asks cs left scope none).bind fun cs₁ _ _ _ => asks cs₁ right scope target

lemma safe_callExpr (site : Expr) (target : Option Kind) (callee : Expr) (positional : List Expr)
    (named : List (String × Expr)) :
    Safe cs (callExpr again site scope target callee positional named) Value.Stored := by
  refine (asks cs callee scope (some .function)).bind fun cs₁ f _ hf => ?_
  split
  next i held f owner =>
    have ho : owner.Stored cs₁ := hf
    refine (safe_values asks scope positional).bind fun cs₂ vs hle hvs => ?_
    refine (safe_namedValues asks scope named).bind fun cs₃ es hle' hes => ?_
    exact safe_call asks site held f (ho.mono (hle.trans hle')) (hvs.mono hle') hes target
  · exact safe_pure trivial

lemma safe_native (e : Expr) (target : Option Kind) :
    Safe cs (native again e scope target) Value.Stored := by
  cases e with
  | scalar _ v => exact safe_pure trivial
  | var _ name => exact safe_valueOf scope name
  | interpolation _ fs =>
    exact (safe_interpolate asks scope fs).bind fun _ _ _ _ => safe_pure trivial
  | list _ es => exact (safe_values asks scope es).bind fun _ _ _ hvs => safe_newList hvs
  | map _ es =>
    refine (safe_namedValues asks scope es).bind fun _ es _ hes => ?_
    exact safe_newMap (Entries.proper_ofList hes)
  | lambda _ params body => exact safe_newFunction scope _ trivial
  | unary _ op operand => exact safe_unary asks scope _ op operand
  | binary _ op left right => exact safe_binary asks scope _ target op left right
  | forEach _ index item out container condition => exact safe_forEach asks scope _ container _
  | repeating _ form body condition limit => exact safe_repeating asks scope form body condition limit
  | conditional _ condition whenTrue whenFalse =>
    refine (safe_boolean asks scope condition).bind fun cs₁ b _ _ => ?_
    split
    · exact asks cs₁ whenTrue scope target
    · exact asks cs₁ whenFalse scope target
  | call _ callee positional named => exact safe_callExpr asks scope _ target callee positional named
  | scopeVariables _ which => exact safe_scopeVariables scope which
  | output _ mode expression type name =>
    exact (safe_output asks scope _ mode expression type name).bind fun _ _ _ _ => safe_pure trivial
  | importing _ space address =>
    exact (safe_importing asks scope _ space address).bind fun _ _ _ _ => safe_pure trivial

end Forms

lemma asksSafely_evaluateWithin (room : Nat) : AsksSafely (evaluateWithin room) := by
  induction room with
  | zero => exact fun cs e scope target => safe_fail e _
  | succ room ih =>
    intro cs e scope target
    refine Safe.nested ?_ e
    exact (safe_native ih scope e target).bind fun _ v _ hv => safe_convert ih scope target hv

lemma asksSafely_evaluate : AsksSafely evaluate := by
  intro cs e scope target m hm hcs
  exact asksSafely_evaluateWithin (maxDepth - m.depth) cs e scope target m hm hcs

end Eval

namespace Session

variable {α : Type} {s : Session} {vs : List Value}

structure Intact (s : Session) (vs : List Value) : Prop where
  machine : s.machine.env.Intact
  values : AllStored s.heap.containers vs

lemma Intact.perform {step : Eval α} {Q : Finset Container → α → Prop} (hs : s.Intact vs)
    (hp : Eval.Safe s.heap.containers step Q) :
    (s.perform step).2.Intact vs ∧
      ∀ a, (s.perform step).1 = .ok a → Q (s.perform step).2.heap.containers a := by
  have hlands := hp s.machine hs.machine rfl
  rw [Session.perform]
  cases hr : step s.machine with
  | ok a m =>
    rw [hr] at hlands
    cases hlands with
    | ok hm hle ha =>
      refine ⟨⟨hm, hs.values.mono hle⟩, ?_⟩
      rintro _ ⟨⟩
      exact ha
  | error e m =>
    rw [hr] at hlands
    cases hlands with
    | error hm hle => exact ⟨⟨hm, hs.values.mono hle⟩, by rintro _ ⟨⟩⟩

lemma Intact.give {o : Except RunError Value} (hs : s.Intact vs)
    (ho : ∀ v, o = .ok v → v.Stored s.heap.containers) : s.Intact (o.toOption.toList ++ vs) := by
  cases o with
  | error e => exact hs
  | ok v => exact ⟨hs.machine, List.forall_mem_cons.mpr ⟨ho v rfl, hs.values⟩⟩

lemma safe_evaluateAll {cs : Finset Container} {last : Value} (hl : last.Stored cs) (es : List Expr) :
    Eval.Safe cs (evaluateAll last es) Value.Stored := by
  induction es generalizing cs last with
  | nil => exact Eval.safe_pure hl
  | cons e es ih => exact (Eval.asksSafely_evaluate cs e _ none).bind fun _ _ _ hv => ih hv

lemma Serves.intact (h : Serves s vs) : s.Intact vs := by
  induction h with
  | start options fetch => exact ⟨Environment.intact_initial, allStored_nil⟩
  | @eval s vs text _ ih =>
    rw [Session.eval]
    split
    · exact ih
    next program _ =>
      obtain ⟨hs, hv⟩ := ih.perform (safe_evaluateAll (Value.stored_scalar _) program)
      exact hs.give hv
  | @run s vs source text _ ih =>
    have hcleared : Intact { s with machine := s.machine.onLog fun _ => .empty } vs :=
      ⟨ih.machine, ih.values⟩
    have haggregate (cs : Finset Container) : Eval.Safe cs aggregateRecords fun _ _ => True := by
      rintro m hm rfl
      exact .ok hm subset_rfl trivial
    rw [Session.run]
    dsimp only
    split
    · exact hcleared
    next program _ =>
      have hrun (cs : Finset Container) :
          Eval.Safe cs (evaluateAll .undefined (withOutput s.defaultMode program)) Value.Stored :=
        safe_evaluateAll (Value.stored_scalar _) _
      exact (hcleared.perform ((hrun _).bind fun cs _ _ _ => haggregate cs)).1
  | @convert s vs target v hv _ ih =>
    obtain ⟨hs, hgiven⟩ :=
      ih.perform (Eval.safe_convert Eval.asksSafely_evaluate Environment.global target (ih.values v hv))
    exact hs.give hgiven

end Session

end DiceLang

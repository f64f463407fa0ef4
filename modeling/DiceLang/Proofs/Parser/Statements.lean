import DiceLang.Proofs.Parser.Forms

/-! Reading loops, conditionals, outputs and imports. -/

namespace DiceLang.Parser

open Printer (optionalWords indexWords typeWords led_keyword linked_of_ne)

variable {β : Type} {rest ws vs us : List Lexeme} {t u v : Expr} {f : β → List Lexeme} {g : β → Expr}

lemma gives_optional (depth : Nat) {k : Keyword} (hk : (Lexeme.keyword k).link? = some .control)
    {o : Option β} (h : ∀ x ∈ o, Derives (f x) .or (g x))
    (hd : (optionalWords [.keyword k] (o.map f)).length ≤ depth) (hs : Stops 3 rest) :
    Gives (optional (parseAt depth) k) (optionalWords [.keyword k] (o.map f)) rest
      fun a => a.map Expr.bare = (o.map g).map Expr.bare := by
  cases o with
  | none => exact comes_refuse (hs.ne hk le_rfl) (comes_end rfl)
  | some x =>
    simp only [Option.map_some, optionalWords, List.singleton_append, List.length_cons] at hd ⊢
    exact comes_accept (Gives.last ((h x rfl).gives depth rest (by omega) (hs.mono (by decide)))
      fun e ha => comes_end (congrArg some ha))

lemma stops_optional {k : Keyword} (hk : (Lexeme.keyword k).link? = some .control) {o : Option β}
    (hs : Stops 3 rest) : Stops 4 (optionalWords [.keyword k] (o.map f) ++ rest) := by
  cases o with
  | none => exact hs.mono (by decide)
  | some x => exact stops_of_link hk (by decide) _

lemma gives_loopNames (index : Option String) (item : String) (rest : List Lexeme) :
    Gives loopNames (indexWords index ++ [.name item]) (.keyword .in :: rest)
      fun a => a.1 = index ∧ a.2.1 = item := by
  cases index with
  | none => exact comes_expectName fun _ => comes_refuse (by simp) (comes_end ⟨rfl, rfl⟩)
  | some i =>
    exact comes_expectName fun _ => comes_accept <| comes_expectName fun _ => comes_end ⟨rfl, rfl⟩

lemma gives_forEach (depth : Nat) (start : Span) (found : Option Expr) (loc : Location)
    (index : Option String) {item : String} {condition : Option β}
    (hout : ∀ loc, (found.getD (.var loc item)).Alike u) (hc : Derives ws .or t)
    (ht : ∀ x ∈ condition, Derives (f x) .or (g x))
    (hd : ws.length + (optionalWords [.keyword .if] (condition.map f)).length ≤ depth)
    (hs : Stops 3 rest) :
    Gives (forEach (parseAt depth) start found)
      (indexWords index ++ .name item :: .keyword .in ::
        (ws ++ optionalWords [.keyword .if] (condition.map f))) rest
      (·.Alike (.forEach loc index item u t (condition.map g))) := by
  rw [List.append_cons]
  refine (gives_loopNames index item _).bind ?_
  rintro ⟨i, n, span⟩ ⟨rfl, rfl⟩
  refine comes_expect fun _ => Gives.bind (hc.gives depth _ (by omega) (stops_optional rfl hs)) fun e ha => ?_
  refine (gives_optional depth rfl ht (by omega) hs).last fun x hb => comes_location fun loc' =>
    comes_locationFrom fun loc'' => comes_end ?_
  have hcond : Expr.bareCondition x = Expr.bareCondition (condition.map g) := by
    have ht : Printer.isTrue x = Printer.isTrue (condition.map g) := by
      rw [← Expr.isTrue_map Expr.sameForm_bare x, hb, Expr.isTrue_map Expr.sameForm_bare]
    simp only [Expr.bareCondition, ht, hb]
  have hout := hout loc'
  simp only [Expr.Alike, Expr.bare_forEach] at ha hout ⊢
  rw [hout, ha, hcond]

lemma derives_collect (hc : Derives ws .or t) {condition : Option β}
    (ht : ∀ x ∈ condition, Derives (f x) .or (g x)) (loc loc' : Location) (index : Option String)
    (item : String) :
    Derives (.keyword .for :: (indexWords index ++ .name item :: .keyword .in ::
        (ws ++ optionalWords [.keyword .if] (condition.map f)))) .control
      (.forEach loc index item (.var loc' item) t (condition.map g)) := by
  refine .of_gives (led_keyword rfl _) (linked_of_ne (by simp) _) rfl fun depth rest hd hs => ?_
  simp only [List.length_append, List.length_cons] at hd
  exact comes_here fun start => comes_refuse (by simp) <| comes_refuse (by simp) <|
    comes_refuse (by simp) <| comes_accept <|
      gives_forEach depth start none loc index (u := .var loc' item) (fun _ => rfl) hc ht (by omega) hs

lemma derives_forEach (ho : Derives vs .or u) (hc : Derives ws .or t) {condition : Option β}
    (ht : ∀ x ∈ condition, Derives (f x) .or (g x)) (loc : Location) (index : Option String)
    (item : String) :
    Derives (vs ++ .keyword .for :: (indexWords index ++ .name item :: .keyword .in ::
        (ws ++ optionalWords [.keyword .if] (condition.map f)))) .control
      (.forEach loc index item u t (condition.map g)) := by
  refine .of_gives ((ho.led.mono (by decide)).append _)
    ((ho.linked.mono (by decide)).append (p := .control) rfl le_rfl _ ho.led.ne_nil) rfl
    fun depth rest hd hs => ?_
  simp only [List.length_append, List.length_cons] at hd
  refine gives_uncontrolled (ho.led.append _) <| Gives.bind (ho.gives depth _ (by omega)
    (stops_of_link (p := .control) rfl (by decide) _)) fun o hao => comes_accept ?_
  exact gives_forEach depth o.location.span (some o) loc index (fun _ => hao) hc ht (by omega) hs

lemma derives_conditional (hc : Derives ws .or t) (ht : Derives vs .or u) (hf : Derives us .control v)
    (loc : Location) :
    Derives (.keyword .if :: (ws ++ .keyword .then :: (vs ++ .keyword .else :: us))) .control
      (.conditional loc t u v) := by
  refine .of_gives (led_keyword rfl _) (linked_of_ne (by simp) _) rfl fun depth rest hd hs => ?_
  simp only [List.length_append, List.length_cons] at hd
  refine comes_here fun start => comes_accept ?_
  refine Gives.bind (hc.gives depth _ (by omega) (stops_of_none rfl _ _)) fun x hx => comes_expect fun _ => ?_
  refine Gives.bind (ht.gives depth _ (by omega) (stops_of_none rfl _ _)) fun y hy => comes_expect fun _ => ?_
  refine (hf.again .control (n := depth) (by omega) hs).last fun z hz =>
    comes_locationFrom fun loc => comes_end ?_
  simp only [Expr.Alike, Expr.bare_conditional] at hx hy hz ⊢
  rw [hx, hy, hz]

lemma derives_before (hb : Derives ws .or t) (hc : Derives vs .or u) {limit : Option β}
    (hl : ∀ x ∈ limit, Derives (f x) .or (g x)) (loc : Location) :
    Derives (.keyword .while :: (vs ++ .keyword .repeat ::
        (ws ++ optionalWords [.keyword .limit] (limit.map f)))) .control
      (.repeating loc .before t u (limit.map g)) := by
  refine .of_gives (led_keyword rfl _) (linked_of_ne (by simp) _) rfl fun depth rest hd hs => ?_
  simp only [List.length_append, List.length_cons] at hd
  refine comes_here fun start => comes_refuse (by simp) <| comes_accept ?_
  refine Gives.bind (hc.gives depth _ (by omega) (stops_of_none rfl _ _)) fun x hx => comes_expect fun _ => ?_
  refine Gives.bind (hb.gives depth _ (by omega) (stops_optional rfl hs)) fun y hy => ?_
  exact (gives_optional depth rfl hl (by omega) hs).last fun z hz =>
    comes_locationFrom fun loc => comes_end (hy.repeating hx hz _ _ _)

lemma derives_after (hb : Derives ws .or t) (hc : Derives vs .or u) {limit : Option β}
    (hl : ∀ x ∈ limit, Derives (f x) .or (g x)) (loc : Location) :
    Derives (.keyword .repeat :: (ws ++ .keyword .while ::
        (vs ++ optionalWords [.keyword .limit] (limit.map f)))) .control
      (.repeating loc .after t u (limit.map g)) := by
  refine .of_gives (led_keyword rfl _) (linked_of_ne (by simp) _) rfl fun depth rest hd hs => ?_
  simp only [List.length_append, List.length_cons] at hd
  refine comes_here fun start => comes_refuse (by simp) <| comes_refuse (by simp) <| comes_accept ?_
  refine Gives.bind (hb.gives depth _ (by omega) (stops_of_none rfl _ _)) fun y hy => comes_accept ?_
  refine Gives.bind (hc.gives depth _ (by omega) (stops_optional rfl hs)) fun x hx => ?_
  exact (gives_optional depth rfl hl (by omega) hs).last fun z hz =>
    comes_locationFrom fun loc => comes_end (hy.repeating hx hz _ _ _)

lemma derives_once (hb : Derives ws .or t) (hc : Derives vs .or u) (loc loc' : Location) :
    Derives (.keyword .repeat :: (ws ++ .keyword .if :: vs)) .control
      (.repeating loc .once t u (some (.scalar loc' (.number 1)))) := by
  refine .of_gives (led_keyword rfl _) (linked_of_ne (by simp) _) rfl fun depth rest hd hs => ?_
  simp only [List.length_append, List.length_cons] at hd
  refine comes_here fun start => comes_refuse (by simp) <| comes_refuse (by simp) <| comes_accept ?_
  refine Gives.bind (hb.gives depth _ (by omega) (stops_of_link (p := .control) rfl (by decide) _))
    fun y hy => comes_refuse (by simp) <| comes_accept ?_
  exact Gives.last (hc.gives depth rest (by omega) (hs.mono (by decide))) fun x hx =>
    comes_locationFrom fun loc => comes_end (hy.repeating hx rfl _ _ _)

lemma outputMode?_word (mode : OutputMode) : outputMode? (.keyword mode.word) = some mode := by
  cases mode <;> rfl

lemma outputType?_lexeme (type : OutputType) : outputType? type.lexeme = some type := by
  cases type with
  | native => rfl
  | kind k => cases k <;> rfl

lemma gives_optionalType {type : Option OutputType}
    (h : rest.headD .eof ≠ .keyword .as) : Gives optionalType (typeWords type) rest (· = type) := by
  cases type with
  | none => exact comes_refuse h (comes_end rfl)
  | some t =>
    have ht : Gives outputType [t.lexeme] rest (· = t) := by
      refine comes_peek ?_
      rw [List.cons_append, List.headD_cons, outputType?_lexeme]
      exact comes_advance (comes_end rfl)
    exact comes_accept (ht.last fun t' h => comes_end (congrArg some h))

def Literal (ws : List Lexeme) : Prop := ∃ fs, ws = [.text fs]

lemma gives_optionalName (depth : Nat) {name : Option β} (hlit : ∀ x ∈ name, Literal (f x))
    (h : ∀ x ∈ name, Derives (f x) .atom (g x)) (hd : (optionalWords [] (name.map f)).length ≤ depth)
    (hs : Stops 1 rest) :
    Gives (optionalName (parseAt depth)) (optionalWords [] (name.map f)) rest
      fun a => a.map Expr.bare = (name.map g).map Expr.bare := by
  refine comes_peek ?_
  cases name with
  | none =>
    have hne (fs : List Fragment) : rest.headD .eof ≠ .text fs := hs.ne (p := .output) rfl le_rfl
    simp only [Option.map_none, optionalWords, List.nil_append]
    cases hl : rest.headD .eof with
    | text fs => exact absurd hl (hne fs)
    | _ => exact comes_end rfl
  | some x =>
    simp only [Option.map_some, optionalWords, List.nil_append] at hd ⊢
    obtain ⟨fs, hfs⟩ := hlit x rfl
    have hgives := (h x rfl).gives depth rest hd (hs.mono (by decide))
    rw [hfs] at hgives ⊢
    exact Gives.last hgives fun e ha => comes_end (congrArg some ha)

lemma head_optionalName {name : Option β} (hlit : ∀ x ∈ name, Literal (f x)) (hs : Stops 1 rest) :
    Stops 2 (optionalWords [] (name.map f) ++ rest) ∧
      (optionalWords [] (name.map f) ++ rest).headD .eof ≠ .keyword .as := by
  cases name with
  | none => exact ⟨hs.mono (by decide), hs.ne (p := .output) rfl le_rfl⟩
  | some x =>
    obtain ⟨fs, hfs⟩ := hlit x rfl
    rw [Option.map_some, optionalWords, List.nil_append, hfs]
    exact ⟨stops_of_link (p := .output) rfl (by decide) _, by simp⟩

lemma derives_output {name : Option β} (hlit : ∀ x ∈ name, Literal (f x)) (he : Derives ws .assign t)
    (hn : ∀ x ∈ name, Derives (f x) .atom (g x)) (loc : Location) (mode : OutputMode)
    (type : Option OutputType) :
    Derives (.keyword mode.word :: (ws ++ (typeWords type ++ optionalWords [] (name.map f)))) .output
      (.output loc mode t type (name.map g)) := by
  refine .of_gives (led_keyword (p := .output) (by cases mode <;> rfl) _) (linked_of_ne (by simp) _)
    rfl fun depth rest hd hs => ?_
  simp only [List.length_append, List.length_cons] at hd
  obtain ⟨hsn, has⟩ := head_optionalName hlit hs
  have hst : Stops Precedence.assign.rank (typeWords type ++ (optionalWords [] (name.map f) ++ rest)) := by
    cases type with
    | none => exact hsn
    | some t => exact stops_of_link (p := .output) rfl (by decide) _
  refine comes_here fun start => comes_peek ?_
  rw [List.cons_append, List.headD_cons, outputMode?_word]
  refine comes_advance <| Gives.bind (he.gives depth _ (by omega) (by rwa [List.append_assoc])) fun e ha => ?_
  refine (gives_optionalType has).bind ?_
  rintro type rfl
  refine (gives_optionalName depth hlit hn (by omega) hs).last fun n hn =>
    comes_locationFrom fun loc => comes_end ?_
  simp only [Expr.Alike, Expr.bare_output] at ha ⊢
  rw [ha, hn]

lemma derives_importing_named (h : Derives ws .assign t) (loc : Location) (name : String) :
    Derives (.keyword .import :: .name name :: .mark .assign :: ws) .output
      (.importing loc (some name) t) := by
  refine .of_gives (led_keyword rfl _) (linked_of_ne (by simp) _) rfl fun depth rest hd hs => ?_
  simp only [List.length_cons] at hd
  exact comes_here fun start => comes_peek <| comes_accept <| comes_named <|
    (h.gives depth rest (by omega) (hs.mono (by decide))).last fun e ha =>
      comes_locationFrom fun loc => comes_end (ha.importing _ _ _)

lemma derives_importing (h : Derives ws .assign t) (hn : ∀ x vs, ws ≠ .name x :: .mark .assign :: vs)
    (loc : Location) : Derives (.keyword .import :: ws) .output (.importing loc none t) := by
  refine .of_gives (led_keyword rfl _) (linked_of_ne (by simp) _) rfl fun depth rest hd hs => ?_
  simp only [List.length_cons] at hd
  refine comes_here fun start => comes_peek <| comes_accept <| comes_unnamed ?_ <|
    (h.gives depth rest (by omega) (hs.mono (by decide))).last fun e ha =>
      comes_locationFrom fun loc => comes_end (ha.importing _ _ _)
  intro name ls heq
  obtain ⟨l, us, _, rfl, _⟩ := h.led
  obtain ⟨rfl, htail⟩ := List.cons.inj heq
  cases us with
  | nil =>
    have hrest : rest = .mark .assign :: ls := htail
    exact absurd (hs .assign (by rw [hrest]; rfl)) (by decide)
  | cons l us =>
    obtain ⟨rfl, _⟩ := List.cons.inj htail
    exact hn name us rfl

end DiceLang.Parser

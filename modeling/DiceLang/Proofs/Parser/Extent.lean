import DiceLang.Proofs.Parser.Steps
import DiceLang.Proofs.Expr.Tree

/-! Sections of a program, and the places of what is read from them. Where the tokens of a section follow
each other, an expression that is read from some of them lies where they lie. -/

namespace DiceLang

namespace Span

lemma offset_first_union (a b : Span) :
    (a.union b).first.offset = min a.first.offset b.first.offset := by
  rw [union]
  dsimp only
  split <;> omega

lemma offset_last_union (a b : Span) :
    (a.union b).last.offset = max a.last.offset b.last.offset := by
  rw [union]
  dsimp only
  split <;> omega

def Covers (a b : Span) : Prop :=
  a.first.offset ≤ b.first.offset ∧ b.last.offset ≤ a.last.offset

lemma Covers.trans {a b c : Span} (h : a.Covers b) (h' : b.Covers c) : a.Covers c :=
  ⟨h.1.trans h'.1, h'.2.trans h.2⟩

lemma covers_self (a : Span) : a.Covers a := ⟨le_rfl, le_rfl⟩

lemma union_covers_left (a b : Span) : (a.union b).Covers a := by
  rw [Covers, offset_first_union, offset_last_union]
  exact ⟨min_le_left _ _, le_max_left _ _⟩

lemma union_covers_right (a b : Span) : (a.union b).Covers b := by
  rw [Covers, offset_first_union, offset_last_union]
  exact ⟨min_le_right _ _, le_max_right _ _⟩

lemma Covers.union {a b c : Span} (hb : a.Covers b) (hc : a.Covers c) : a.Covers (b.union c) := by
  rw [Covers, offset_first_union, offset_last_union]
  exact ⟨le_min hb.1 hc.1, max_le hb.2 hc.2⟩

end Span

namespace Expr

def Nested (source : String) (e : Expr) : Prop :=
  ∀ n, Within n e → n.location.source = source ∧
    n.location.span.first.offset < n.location.span.last.offset ∧
    ∀ c ∈ n.children, n.location.span.Covers c.location.span

lemma nested_iff {source : String} {e : Expr} : e.Nested source ↔ (e.location.source = source ∧
    e.location.span.first.offset < e.location.span.last.offset ∧
    ∀ c ∈ e.children, e.location.span.Covers c.location.span) ∧ ∀ c ∈ e.children, c.Nested source :=
  forall_within

lemma Nested.within {source : String} {e n : Expr} (h : e.Nested source) (hn : n.Within e) :
    n.Nested source :=
  fun m hm => h m (hm.trans hn)

lemma Nested.covers {source : String} {e n : Expr} (h : e.Nested source) (hn : n.Within e) :
    e.location.span.Covers n.location.span := by
  induction hn with
  | self => exact n.location.span.covers_self
  | inside hc _ ih =>
    obtain ⟨⟨-, -, hcovers⟩, hinside⟩ := nested_iff.mp h
    exact (hcovers _ hc).trans (ih (hinside _ hc))

end Expr

namespace Parser

structure Section where
  source : String
  tokens : List Token
  inside : ∀ t ∈ tokens, atEnd t.lexeme = false

namespace Section

variable {s : Section} {i j k : Nat} {e l r : Expr}

def size (s : Section) : Nat := s.tokens.length

def lexeme (s : Section) (k : Nat) : Lexeme := (s.tokens.getD k default).lexeme

def span (s : Section) (k : Nat) : Span := (s.tokens.getD k default).span

lemma token_mem (s : Section) (h : k < s.size) : s.tokens.getD k default ∈ s.tokens := by
  rw [List.getD_eq_getElem _ _ h]
  exact List.getElem_mem h

lemma atEnd_lexeme (h : k < s.size) : atEnd (s.lexeme k) = false := s.inside _ (s.token_mem h)

structure Ordered (s : Section) : Prop where
  filled : ∀ k < s.size, (s.span k).first.offset < (s.span k).last.offset
  apart : ∀ i j, i < j → j < s.size → (s.span i).last.offset ≤ (s.span j).first.offset

def stretch (s : Section) (k j : Nat) : Span := ⟨(s.span k).first, (s.span (j - 1)).last⟩

lemma Ordered.stretch_covers (h : s.Ordered) {k' j' : Nat} (hk : k ≤ k') (hlt : k' < j') (hj' : j' ≤ j)
    (hj : j ≤ s.size) : (s.stretch k j).Covers (s.stretch k' j') := by
  constructor
  · rcases hk.eq_or_lt with rfl | hk
    · exact le_rfl
    · have hfilled := h.filled k (by omega)
      have hapart := h.apart k k' hk (by omega)
      exact hfilled.le.trans hapart
  · rcases hj'.eq_or_lt with rfl | hj'
    · exact le_rfl
    · have hfilled := h.filled (j - 1) (by omega)
      have hapart := h.apart (j' - 1) (j - 1) (by omega) (by omega)
      exact hapart.trans hfilled.le

def Reads (s : Section) (k j : Nat) (e : Expr) : Prop :=
  k < j ∧ j ≤ s.size ∧ (s.Ordered → (s.stretch k j).Covers e.location.span ∧ e.Nested s.source)

lemma Reads.mono (h : s.Reads i j e) {k n : Nat} (hk : k ≤ i) (hn : j ≤ n) (hs : n ≤ s.size) :
    s.Reads k n e := by
  obtain ⟨hij, -, h⟩ := h
  refine ⟨by omega, hs, fun ho => ⟨?_, (h ho).2⟩⟩
  exact (ho.stretch_covers hk hij hn hs).trans (h ho).1

lemma reads_token (hk : k < s.size) (hloc : e.location = ⟨s.source, s.span k⟩)
    (hc : e.children = []) : s.Reads k (k + 1) e := by
  refine ⟨by omega, hk, fun ho => ?_⟩
  rw [Expr.nested_iff, hc, hloc]
  exact ⟨(s.span k).covers_self, ⟨rfl, ho.filled k hk, nofun⟩, nofun⟩

lemma reads_node {start : Span} (hki : k < i) (hij : i ≤ j) (hj : j ≤ s.size)
    (hstart : s.Ordered → (s.stretch k i).Covers start ∧ start.first.offset < start.last.offset)
    (hloc : e.location = ⟨s.source, start.union (s.span (j - 1))⟩)
    (hc : ∀ c ∈ e.children, s.Reads i j c ∨ c.location.span = start ∧ (s.Ordered → c.Nested s.source) ∨
      c.children = [] ∧ c.location = e.location) : s.Reads k j e := by
  refine ⟨by omega, hj, fun ho => ?_⟩
  obtain ⟨hcovers, hfilled⟩ := hstart ho
  have hfirst : e.location.span.first.offset = min start.first.offset (s.span (j - 1)).first.offset := by
    rw [hloc, Span.offset_first_union]
  have hlast : e.location.span.last.offset = max start.last.offset (s.span (j - 1)).last.offset := by
    rw [hloc, Span.offset_last_union]
  have hwhole := ho.stretch_covers le_rfl hki hij hj
  have htoken : (s.stretch k j).Covers (s.stretch (j - 1) j) :=
    ho.stretch_covers (by omega) (by omega) le_rfl hj
  simp only [Span.Covers, stretch] at hcovers hwhole htoken
  have hnode : e.location.span.first.offset < e.location.span.last.offset := by omega
  have hinside : ∀ c ∈ e.children, e.location.span.Covers c.location.span ∧ c.Nested s.source := by
    intro c hmem
    rcases hc c hmem with hread | ⟨hplace, hnested⟩ | ⟨hleaf, hplace⟩
    · -- a child behind `start` begins where the next token begins
      obtain ⟨hlt, -, hread⟩ := hread
      obtain ⟨hbehind, hnested⟩ := hread ho
      have hapart := ho.apart (i - 1) i (by omega) (by omega)
      simp only [Span.Covers, stretch] at hbehind
      refine ⟨⟨?_, ?_⟩, hnested⟩ <;> omega
    · refine ⟨⟨?_, ?_⟩, hnested ho⟩ <;> rw [hplace] <;> omega
    · rw [hplace, Expr.nested_iff, hleaf, hplace]
      exact ⟨Span.covers_self _, ⟨by rw [hloc], hnode, nofun⟩, nofun⟩
  refine ⟨⟨?_, ?_⟩, Expr.nested_iff.mpr ⟨⟨by rw [hloc], hnode, ?_⟩, ?_⟩⟩
  · simp only [stretch]
    omega
  · simp only [stretch]
    omega
  · exact fun c hmem => (hinside c hmem).1
  · exact fun c hmem => (hinside c hmem).2

lemma reads_from_token (hkj : k < j) (hj : j ≤ s.size)
    (hloc : e.location = ⟨s.source, (s.span k).union (s.span (j - 1))⟩)
    (hc : ∀ c ∈ e.children, s.Reads (k + 1) j c ∨ c.children = [] ∧ c.location = e.location) :
    s.Reads k j e := by
  refine reads_node k.lt_succ_self hkj hj ?_ hloc ?_
  · intro ho
    exact ⟨(s.span k).covers_self, ho.filled k (by omega)⟩
  · intro c hmem
    exact (hc c hmem).imp_right .inr

lemma reads_from_operand (hl : s.Reads k i l) (hij : i ≤ j) (hj : j ≤ s.size)
    (hloc : e.location = ⟨s.source, l.location.span.union (s.span (j - 1))⟩)
    (hc : ∀ c ∈ e.children, c = l ∨ s.Reads i j c) : s.Reads k j e := by
  obtain ⟨hki, -, hl⟩ := hl
  refine reads_node hki hij hj ?_ hloc ?_
  · intro ho
    obtain ⟨hcovers, hnested⟩ := hl ho
    exact ⟨hcovers, (Expr.nested_iff.mp hnested).1.2.1⟩
  · intro c hmem
    rcases hc c hmem with rfl | hread
    · exact .inr (.inl ⟨rfl, fun ho => (hl ho).2⟩)
    · exact .inl hread

lemma reads_join (op : BinaryOp) (hl : s.Reads k i l) (hr : s.Reads i j r) :
    s.Reads k j (.join op l r) := by
  obtain ⟨hki, -, hl⟩ := hl
  obtain ⟨hij, hj, hr⟩ := hr
  refine ⟨by omega, hj, fun ho => ?_⟩
  obtain ⟨hcl, hnl⟩ := hl ho
  obtain ⟨hcr, hnr⟩ := hr ho
  have hleft := (ho.stretch_covers le_rfl hki hij.le hj).trans hcl
  have hright := (ho.stretch_covers hki.le hij le_rfl hj).trans hcr
  obtain ⟨⟨hsource, hfilled, -⟩, -⟩ := Expr.nested_iff.mp hnl
  have hl := l.location.span.union_covers_left r.location.span
  have hr := l.location.span.union_covers_right r.location.span
  refine ⟨hleft.union hright, Expr.nested_iff.mpr ⟨⟨hsource, ?_, ?_⟩, ?_⟩⟩
  · exact hl.1.trans_lt (hfilled.trans_le hl.2)
  · simp only [Expr.join, Expr.children, List.forall_mem_cons]
    exact ⟨hl, hr, List.forall_mem_nil _⟩
  · simp only [Expr.join, Expr.children, List.forall_mem_cons]
    exact ⟨hnl, hnr, List.forall_mem_nil _⟩

end Section

end Parser

end DiceLang

import Precizer.Logger.Markup

/-! # Texts with markers, cut into pieces

A text is cut at its markers. While no marker is formed by the plain bytes themselves, each rule
acts on its own pieces only. An inserted sequence keeps the plain bytes around it apart, a
removed marker joins them.
-/
namespace Precizer.Logger
open General

/-- A piece of a text in work: a byte, a marker still to be replaced, or an inserted sequence. -/
inductive Piece where
  | plain (b : Byte)
  | marked (rule : List Byte × List Byte)
  | sequence (bytes : List Byte)

namespace Piece

def bytes : Piece → List Byte
  | plain b => [b]
  | marked rule => rule.1
  | sequence s => s

def From (rules : List (List Byte × List Byte)) : Piece → Prop
  | plain _ => True
  | marked rule => rule ∈ rules
  | sequence s => ∃ rule ∈ rules, s = rule.2

def substitute (rule : List Byte × List Byte) (into : List Piece) : Piece → List Piece
  | marked r => if r = rule then into else [marked r]
  | p => [p]

@[simp] theorem substitute_sequence (rule : List Byte × List Byte) (into : List Piece) (s : List Byte) :
    substitute rule into (sequence s) = [sequence s] := rfl

end Piece

def render (pieces : List Piece) : List Byte := pieces.flatMap Piece.bytes

/-- The plain bytes up to the first marker or sequence. -/
def plainRun : List Piece → List Byte
  | .plain b :: rest => b :: plainRun rest
  | _ => []

def bareBytes : List Piece → List Byte
  | [] => []
  | .plain b :: rest => b :: bareBytes rest
  | _ :: rest => bareBytes rest

def markerAt (rules : List (List Byte × List Byte)) (text : List Byte) : Option (List Byte × List Byte) :=
  rules.find? fun rule => rule.1 <+: text

def cutPieces (rules : List (List Byte × List Byte)) : List Byte → List Piece
  | [] => []
  | x :: text =>
    match markerAt rules (x :: text) with
    | some rule => .marked rule :: cutPieces rules (text.drop (rule.1.length - 1))
    | none => .plain x :: cutPieces rules text
termination_by text => text.length

def withoutMarkers (text : List Byte) : List Byte := bareBytes (cutPieces decorations text)

/-- The terminal sequences of one attribute; the others of the table are two of them. -/
def sequenceUnits : List (List Byte) :=
  [resetSequence,shorttab,bold,black,gray,red,green,orange,yellow,blue,magenta,cyan,white]

def withoutSequences : List Byte → List Byte
  | [] => []
  | x :: text =>
    match sequenceUnits.find? (· <+: x :: text) with
    | some sequence => withoutSequences (text.drop (sequence.length - 1))
    | none => x :: withoutSequences text
termination_by text => text.length

/-- No marker of the table occurs. -/
def MarkerFree (text : List Byte) : Prop := ∀ rule ∈ decorations, ¬ rule.1 <:+: text

@[simp] theorem render_nil : render [] = [] := rfl

@[simp] theorem render_cons (p : Piece) (pieces : List Piece) : render (p :: pieces) = p.bytes ++ render pieces :=
  List.flatMap_cons

theorem plainRun_render (pieces : List Piece) : plainRun pieces <+: render pieces := by
  induction pieces with
  | nil => exact List.nil_prefix
  | cons p pieces ih =>
    cases p with
    | plain b => exact List.cons_prefix_cons.mpr ⟨rfl,ih⟩
    | marked r => exact List.nil_prefix
    | sequence s => exact List.nil_prefix

/-- No marker is formed by plain bytes that stand together. -/
inductive Clean (rules : List (List Byte × List Byte)) : List Piece → Prop where
  | nil : Clean rules []
  | cons {p : Piece} {pieces : List Piece} (h : ∀ rule ∈ rules, ¬ rule.1 <+: plainRun (p :: pieces))
      (hrest : Clean rules pieces) : Clean rules (p :: pieces)

theorem Clean.head {rules : List (List Byte × List Byte)} {p : Piece} {pieces : List Piece}
    (h : Clean rules (p :: pieces)) : ∀ rule ∈ rules, ¬ rule.1 <+: plainRun (p :: pieces) := by
  cases h with
  | cons h hrest => exact h

theorem Clean.tail {rules : List (List Byte × List Byte)} {p : Piece} {pieces : List Piece}
    (h : Clean rules (p :: pieces)) : Clean rules pieces := by
  cases h with
  | cons h hrest => exact hrest

section Rules

variable {rules : List (List Byte × List Byte)} (hrules : ∀ rule ∈ rules, Rule rule)
include hrules

theorem marker_ne_nil {rule : List Byte × List Byte} (h : rule ∈ rules) : rule.1 ≠ [] := (hrules rule h).ne_nil

theorem pattern_plainRun {pieces : List Piece} (hfrom : ∀ p ∈ pieces, p.From rules) {pattern : List Byte}
    (hat : atSign ∉ pattern) (hescape : escByte ∉ pattern) (h : pattern <+: render pieces) :
    pattern <+: plainRun pieces := by
  induction pattern generalizing pieces with
  | nil => exact List.nil_prefix
  | cons x pattern ih =>
    rw [List.mem_cons,not_or] at hat hescape
    cases pieces with
    | nil => simp at h
    | cons p rest =>
      have hp := hfrom p List.mem_cons_self
      cases p with
      | plain b =>
        have hcons := List.cons_prefix_cons.mp h
        exact List.cons_prefix_cons.mpr
          ⟨hcons.1,ih (fun q hq => hfrom q (List.mem_cons_of_mem _ hq)) hat.2 hescape.2 hcons.2⟩
      | marked rule =>
        obtain ⟨tail,hmarker,-⟩ := (hrules rule hp).head
        rw [render_cons,Piece.bytes,hmarker] at h
        exact absurd (List.cons_prefix_cons.mp h).1.symm hat.1
      | sequence s =>
        obtain ⟨rule,hrule,rfl⟩ := hp
        obtain ⟨tail,hsequence⟩ := (hrules rule hrule).escapes
        rw [render_cons,Piece.bytes,hsequence] at h
        exact absurd (List.cons_prefix_cons.mp h).1.symm hescape.1

theorem marker_escape_notMem {rule : List Byte × List Byte} (h : rule ∈ rules) : escByte ∉ rule.1 := by
  intro hmem
  exact absurd ((hrules rule h).printable escByte hmem).1 (by decide)

theorem marker_plainRun {b : Byte} {pieces : List Piece} (hfrom : ∀ p ∈ pieces, p.From rules)
    {rule : List Byte × List Byte} (hrule : rule ∈ rules) (h : rule.1 <+: render (.plain b :: pieces)) :
    rule.1 <+: plainRun (.plain b :: pieces) := by
  obtain ⟨tail,htail,hat⟩ := (hrules rule hrule).head
  have hescape := marker_escape_notMem hrules hrule
  rw [htail] at h hescape ⊢
  have hcons := List.cons_prefix_cons.mp h
  exact List.cons_prefix_cons.mpr
    ⟨hcons.1,pattern_plainRun hrules hfrom hat (fun h => hescape (List.mem_cons_of_mem _ h)) hcons.2⟩

variable (hdistinct : ∀ r ∈ rules, ∀ r' ∈ rules, r.1 <+: r'.1 → r = r')
include hdistinct

theorem replaceAll_render {rule : List Byte × List Byte} (hrule : rule ∈ rules) {replacement : List Byte}
    {into : List Piece} (hinto : render into = replacement) {pieces : List Piece}
    (hfrom : ∀ p ∈ pieces, p.From rules) (hclean : Clean rules pieces) :
    replaceAll rule.1 replacement (render pieces) = render (pieces.flatMap (Piece.substitute rule into)) := by
  obtain ⟨tail,htail,hat⟩ := (hrules rule hrule).head
  induction pieces with
  | nil => simp
  | cons p pieces ih =>
    have hnext := ih (fun q hq => hfrom q (List.mem_cons_of_mem _ hq)) hclean.tail
    have hp := hfrom p List.mem_cons_self
    rw [List.flatMap_cons]
    cases p with
    | plain b =>
      have hunmatched : ¬ rule.1 <+: b :: render pieces := fun h =>
        hclean.head rule hrule (marker_plainRun hrules (fun q hq => hfrom q (List.mem_cons_of_mem _ hq)) hrule h)
      simp only [render_cons,Piece.bytes,Piece.substitute,List.singleton_append]
      rw [replaceAll_unmatched hunmatched,hnext]
    | marked r =>
      by_cases hsame : r = rule
      · subst hsame
        rw [render_cons,Piece.bytes,replaceAll_search_append (marker_ne_nil hrules hrule),hnext,Piece.substitute,
          if_pos rfl,← hinto]
        simp [render]
      · obtain ⟨others,hothers,hat'⟩ := (hrules r hp).head
        have hunmatched : ¬ rule.1 <+: r.1 ++ render pieces := by
          intro h
          rcases List.prefix_or_prefix_of_prefix h (List.prefix_append r.1 (render pieces)) with h | h
          · exact hsame (hdistinct rule hrule r hp h).symm
          · exact hsame (hdistinct r hp rule hrule h)
        rw [render_cons,Piece.bytes,Piece.substitute,if_neg hsame,List.singleton_append,render_cons,Piece.bytes,← hnext]
        rw [hothers,List.cons_append] at hunmatched ⊢
        rw [replaceAll_unmatched hunmatched,htail,replaceAll_append_of_head_notMem hat']
        rfl
    | sequence s =>
      obtain ⟨r,hr,rfl⟩ := hp
      rw [render_cons,Piece.bytes,Piece.substitute_sequence,List.singleton_append,render_cons,Piece.bytes,← hnext,
        htail,replaceAll_append_of_head_notMem (hrules r hr).plain]

omit hrules hdistinct in
/-- The plain bytes stay when the markers get sequences. -/
theorem bareBytes_substitute (rule : List Byte × List Byte) {into : List Piece} (hinto : bareBytes into = [])
    (pieces : List Piece) : bareBytes (pieces.flatMap (Piece.substitute rule into)) = bareBytes pieces := by
  have happend : ∀ ps qs, bareBytes (ps ++ qs) = bareBytes ps ++ bareBytes qs := by
    intro ps qs
    induction ps with
    | nil => rfl
    | cons p ps ih => cases p <;> simp [bareBytes,ih]
  induction pieces with
  | nil => rfl
  | cons p pieces ih =>
    rw [List.flatMap_cons,happend,ih]
    cases p with
    | plain b => rfl
    | marked r =>
      by_cases hsame : r = rule
      · simp [Piece.substitute,hsame,hinto,bareBytes]
      · simp [Piece.substitute,hsame,bareBytes]
    | sequence s => rfl

omit hrules hdistinct in
theorem plainRun_substitute (rule : List Byte × List Byte) (s : List Byte) (pieces : List Piece) :
    plainRun (pieces.flatMap (Piece.substitute rule [.sequence s])) = plainRun pieces := by
  induction pieces with
  | nil => rfl
  | cons p pieces ih =>
    cases p with
    | plain b => simp [Piece.substitute,plainRun,ih]
    | marked r => by_cases hsame : r = rule <;> simp [Piece.substitute,hsame,plainRun]
    | sequence s => simp [plainRun]

omit hrules hdistinct in
/-- An inserted sequence separates what the marker separated. -/
theorem Clean.sequence (rule : List Byte × List Byte) (s : List Byte) {pieces : List Piece}
    (h : Clean rules pieces) : Clean rules (pieces.flatMap (Piece.substitute rule [.sequence s])) := by
  induction pieces with
  | nil => exact h
  | cons p pieces ih =>
    have hrun := plainRun_substitute rule s (p :: pieces)
    rw [List.flatMap_cons] at hrun ⊢
    have hnext := ih h.tail
    cases p with
    | plain b => exact .cons (fun r hr => hrun ▸ h.head r hr) hnext
    | marked r =>
      by_cases hsame : r = rule
      · simp only [Piece.substitute,hsame,if_true] at hrun ⊢
        exact .cons (fun r hr => hrun ▸ h.head r hr) hnext
      · simp only [Piece.substitute,hsame,if_false] at hrun ⊢
        exact .cons (fun r hr => hrun ▸ h.head r hr) hnext
    | sequence s => exact .cons (fun r hr => hrun ▸ h.head r hr) hnext

omit hrules hdistinct in
theorem bareBytes_start (pieces : List Piece) : plainRun pieces <+: bareBytes pieces := by
  induction pieces with
  | nil => exact List.nil_prefix
  | cons p pieces ih =>
    cases p with
    | plain b => exact List.cons_prefix_cons.mpr ⟨rfl,ih⟩
    | marked r => exact List.nil_prefix
    | sequence s => exact List.nil_prefix

omit hrules hdistinct in
/-- Without a marker among all plain bytes no removal forms one. -/
theorem clean_of_bareBytes {pieces : List Piece} (h : ∀ rule ∈ rules, ¬ rule.1 <:+: bareBytes pieces) :
    Clean rules pieces := by
  induction pieces with
  | nil => exact .nil
  | cons p pieces ih =>
    have hsuffix : bareBytes pieces <:+ bareBytes (p :: pieces) := by
      cases p with
      | plain b => exact List.suffix_cons b _
      | marked r => exact List.suffix_rfl
      | sequence s => exact List.suffix_rfl
    exact .cons (fun rule hrule hrun => h rule hrule (hrun.trans (bareBytes_start (p :: pieces))).isInfix)
      (ih (fun rule hrule hwithin => h rule hrule (hwithin.trans hsuffix.isInfix)))

omit hrules hdistinct in
theorem from_substitute {rule : List Byte × List Byte} {into : List Piece} (hinto : ∀ p ∈ into, p.From rules)
    {pieces : List Piece} (h : ∀ p ∈ pieces, p.From rules) :
    ∀ p ∈ pieces.flatMap (Piece.substitute rule into), p.From rules := by
  intro p hp
  obtain ⟨q,hq,hmem⟩ := List.mem_flatMap.mp hp
  have hqfrom := h q hq
  cases q with
  | plain b => exact (List.mem_singleton.mp hmem) ▸ hqfrom
  | marked r =>
    by_cases hsame : r = rule
    · simp only [Piece.substitute,hsame,if_true] at hmem
      exact hinto p hmem
    · simp only [Piece.substitute,hsame,if_false] at hmem
      exact (List.mem_singleton.mp hmem) ▸ hqfrom
  | sequence s => exact (List.mem_singleton.mp hmem) ▸ hqfrom

def inserted (stylesEnabled : Bool) (rule : List Byte × List Byte) : List Piece :=
  if stylesEnabled then [.sequence rule.2] else []

def styledPieces (stylesEnabled : Bool) (todo : List (List Byte × List Byte)) (pieces : List Piece) : List Piece :=
  todo.foldl (fun pieces rule => pieces.flatMap (Piece.substitute rule (inserted stylesEnabled rule))) pieces

omit hrules hdistinct in
theorem bareBytes_styledPieces (stylesEnabled : Bool) (todo : List (List Byte × List Byte)) (pieces : List Piece) :
    bareBytes (styledPieces stylesEnabled todo pieces) = bareBytes pieces := by
  induction todo generalizing pieces with
  | nil => rfl
  | cons rule todo ih =>
    have hinto : bareBytes (inserted stylesEnabled rule) = [] := by cases stylesEnabled <;> rfl
    exact (ih _).trans (bareBytes_substitute rule hinto pieces)

omit hrules hdistinct in
theorem from_inserted (stylesEnabled : Bool) {rule : List Byte × List Byte} (hrule : rule ∈ rules) :
    ∀ p ∈ inserted stylesEnabled rule, p.From rules := by
  cases stylesEnabled with
  | false => simp [inserted]
  | true =>
    intro p hp
    rw [inserted,if_pos rfl,List.mem_singleton] at hp
    exact hp ▸ ⟨rule,hrule,rfl⟩

/-- The rules one after another act on the pieces, and no marker is formed on the way. -/
theorem styled_render (stylesEnabled : Bool) {todo : List (List Byte × List Byte)} (htodo : todo ⊆ rules)
    {pieces : List Piece} (hfrom : ∀ p ∈ pieces, p.From rules) (hclean : Clean rules pieces)
    (hbare : stylesEnabled = false → ∀ rule ∈ rules, ¬ rule.1 <:+: bareBytes pieces) :
    styled stylesEnabled todo (render pieces) = render (styledPieces stylesEnabled todo pieces) ∧
      Clean rules (styledPieces stylesEnabled todo pieces) ∧
      ∀ p ∈ styledPieces stylesEnabled todo pieces, p.From rules := by
  induction todo generalizing pieces with
  | nil => exact ⟨rfl,hclean,hfrom⟩
  | cons rule todo ih =>
    have hrule := htodo List.mem_cons_self
    have hbytes : render (inserted stylesEnabled rule) = if stylesEnabled then rule.2 else [] := by
      cases stylesEnabled <;> simp [inserted,Piece.bytes]
    have hsame : bareBytes (pieces.flatMap (Piece.substitute rule (inserted stylesEnabled rule))) = bareBytes pieces :=
      bareBytes_styledPieces stylesEnabled [rule] pieces
    have hstep := replaceAll_render hrules hdistinct hrule hbytes hfrom hclean
    have hnext : Clean rules (pieces.flatMap (Piece.substitute rule (inserted stylesEnabled rule))) := by
      cases stylesEnabled with
      | false => exact clean_of_bareBytes (hsame ▸ hbare rfl)
      | true => exact hclean.sequence rule rule.2
    have hlater := ih (fun r hr => htodo (List.mem_cons_of_mem _ hr))
      (from_substitute (from_inserted stylesEnabled hrule) hfrom) hnext (hsame ▸ hbare)
    rw [← hstep] at hlater
    exact hlater

omit hrules hdistinct in
/-- A rule leaves none of its markers. -/
theorem marked_styledPieces {stylesEnabled : Bool} {todo : List (List Byte × List Byte)} {pieces : List Piece}
    {r : List Byte × List Byte} (h : .marked r ∈ styledPieces stylesEnabled todo pieces) :
    r ∉ todo ∧ .marked r ∈ pieces := by
  induction todo generalizing pieces with
  | nil => exact ⟨List.not_mem_nil,h⟩
  | cons rule todo ih =>
    obtain ⟨hlater,hmem⟩ := ih h
    obtain ⟨q,hq,hsubstituted⟩ := List.mem_flatMap.mp hmem
    cases q with
    | plain b => simp [Piece.substitute] at hsubstituted
    | sequence s => simp at hsubstituted
    | marked r' =>
      by_cases hsame : r' = rule
      · cases stylesEnabled <;> simp [Piece.substitute,hsame,inserted] at hsubstituted
      · have hr : r = r' := by simpa [Piece.substitute,hsame] using hsubstituted
        subst hr
        exact ⟨fun h => (List.mem_cons.mp h).elim hsame hlater,hq⟩

omit hdistinct in
/-- Without markers among the pieces none occurs in the text. -/
theorem unmarked_render {pieces : List Piece} (hfrom : ∀ p ∈ pieces, p.From rules) (hclean : Clean rules pieces)
    (hdone : ∀ r, .marked r ∉ pieces) : ∀ rule ∈ rules, ¬ rule.1 <:+: render pieces := by
  intro rule hrule
  obtain ⟨tail,htail,-⟩ := (hrules rule hrule).head
  have hne := marker_ne_nil hrules hrule
  -- a marker starts at none of the bytes of a sequence
  have hpassed : ∀ (skipped text : List Byte), atSign ∉ skipped → rule.1 <:+: skipped ++ text → rule.1 <:+: text := by
    intro skipped text hat hwithin
    induction skipped with
    | nil => exact hwithin
    | cons x skipped ih =>
      rw [List.mem_cons,not_or] at hat
      rcases List.infix_cons_iff.mp hwithin with hstart | hlater
      · rw [htail] at hstart
        exact absurd (List.cons_prefix_cons.mp hstart).1 hat.1
      · exact ih hat.2 hlater
  induction pieces with
  | nil => simpa using hne
  | cons p pieces ih =>
    have hnext := ih (fun q hq => hfrom q (List.mem_cons_of_mem _ hq)) hclean.tail
      (fun r hr => hdone r (List.mem_cons_of_mem _ hr))
    have hp := hfrom p List.mem_cons_self
    intro hwithin
    cases p with
    | plain b =>
      rcases List.infix_cons_iff.mp hwithin with hstart | hlater
      · exact hclean.head rule hrule
          (marker_plainRun hrules (fun q hq => hfrom q (List.mem_cons_of_mem _ hq)) hrule hstart)
      · exact hnext hlater
    | marked r => exact hdone r List.mem_cons_self
    | sequence s =>
      obtain ⟨r,hr,rfl⟩ := hp
      exact hnext (hpassed r.2 _ (hrules r hr).plain hwithin)

omit hdistinct in
theorem cutPieces_spec (text : List Byte) : render (cutPieces rules text) = text ∧
    Clean rules (cutPieces rules text) ∧
    ∀ p ∈ cutPieces rules text, (∃ b ∈ text, p = .plain b) ∨ ∃ rule ∈ rules, p = .marked rule := by
  induction hlength : text.length using Nat.strong_induction_on generalizing text with
  | _ n ih =>
    cases text with
    | nil => simpa [cutPieces] using Clean.nil
    | cons x text =>
      rw [cutPieces]
      cases hmarker : markerAt rules (x :: text) with
      | some rule =>
        have hrule : rule ∈ rules := List.mem_of_find?_eq_some hmarker
        have hstart : rule.1 <+: x :: text := by simpa using List.find?_some hmarker
        obtain ⟨after,hafter⟩ := hstart
        obtain ⟨tail,htail,-⟩ := (hrules rule hrule).head
        have hrest : text.drop (rule.1.length - 1) = after := by
          rw [htail,List.cons_append] at hafter
          rw [htail,← (List.cons.inj hafter).2]
          simp
        have hshorter : after.length < n := by
          have hpos := List.length_pos_of_ne_nil (marker_ne_nil hrules hrule)
          have hcount := congrArg List.length hafter
          rw [List.length_append] at hcount
          omega
        obtain ⟨hspell,hclean,hpieces⟩ := ih after.length hshorter after rfl
        dsimp only
        rw [hrest]
        refine ⟨by rw [render_cons,hspell]; exact hafter,.cons ?_ hclean,?_⟩
        · intro r hr h
          exact marker_ne_nil hrules hr (List.prefix_nil.mp h)
        · intro p hp
          rcases List.mem_cons.mp hp with rfl | hp
          · exact .inr ⟨rule,hrule,rfl⟩
          · rcases hpieces p hp with ⟨b,hb,rfl⟩ | hmarked
            · exact .inl ⟨b,hafter ▸ List.mem_append_right _ hb,rfl⟩
            · exact .inr hmarked
      | none =>
        obtain ⟨hspell,hclean,hpieces⟩ := ih text.length (by simp [← hlength]) text rfl
        dsimp only
        refine ⟨by rw [render_cons,hspell]; rfl,.cons ?_ hclean,?_⟩
        · intro rule hrule hrun
          have hunmarked := List.find?_eq_none.mp hmarker rule hrule
          have hspelled := plainRun_render (.plain x :: cutPieces rules text)
          rw [render_cons,hspell] at hspelled
          exact hunmarked (decide_eq_true (hrun.trans hspelled))
        · intro p hp
          rcases List.mem_cons.mp hp with rfl | hp
          · exact .inl ⟨x,List.mem_cons_self,rfl⟩
          · rcases hpieces p hp with ⟨b,hb,rfl⟩ | hmarked
            · exact .inl ⟨b,List.mem_cons_of_mem _ hb,rfl⟩
            · exact .inr hmarked

end Rules

theorem decorations_distinct : ∀ r ∈ decorations, ∀ r' ∈ decorations, r.1 <+: r'.1 → r = r' := by
  decide +kernel

theorem sequenceUnits_distinct : ∀ u ∈ sequenceUnits, ∀ v ∈ sequenceUnits, u <+: v → u = v := by
  decide +kernel

theorem sequenceUnits_escape : ∀ u ∈ sequenceUnits, u.head? = some escByte := by
  decide +kernel

theorem decorations_units : ∀ rule ∈ decorations, rule.2 ∈ sequenceUnits ∨
    ∃ u ∈ sequenceUnits, ∃ v ∈ sequenceUnits, rule.2 = u ++ v := by
  decide +kernel

/-- A sequence of one attribute is removed as a whole. -/
theorem withoutSequences_unit {u : List Byte} (hu : u ∈ sequenceUnits) (text : List Byte) :
    withoutSequences (u ++ text) = withoutSequences text := by
  obtain ⟨tail,rfl⟩ : ∃ tail, u = escByte :: tail := by
    have hescape := sequenceUnits_escape u hu
    cases u with
    | nil => simp at hescape
    | cons x tail => exact ⟨tail,by simpa using hescape⟩
  have hfound : sequenceUnits.find? (· <+: escByte :: (tail ++ text)) = some (escByte :: tail) := by
    cases hfind : sequenceUnits.find? (· <+: escByte :: (tail ++ text)) with
    | none =>
      have hmissing := List.find?_eq_none.mp hfind _ hu
      exact absurd (decide_eq_true (List.prefix_append (escByte :: tail) text)) hmissing
    | some v =>
      have hv := List.mem_of_find?_eq_some hfind
      have hstart : v <+: escByte :: tail ++ text := by simpa using List.find?_some hfind
      rcases List.prefix_or_prefix_of_prefix hstart (List.prefix_append (escByte :: tail) text) with h | h
      · rw [sequenceUnits_distinct v hv _ hu h]
      · rw [sequenceUnits_distinct _ hu v hv h]
  rw [List.cons_append,withoutSequences,hfound]
  simp

theorem withoutSequences_sequence {rule : List Byte × List Byte} (hrule : rule ∈ decorations) (text : List Byte) :
    withoutSequences (rule.2 ++ text) = withoutSequences text := by
  rcases decorations_units rule hrule with hunit | ⟨u,hu,v,hv,hsplit⟩
  · exact withoutSequences_unit hunit text
  · rw [hsplit,List.append_assoc,withoutSequences_unit hu,withoutSequences_unit hv]

theorem withoutSequences_plain {b : Byte} (hb : b ≠ escByte) (text : List Byte) :
    withoutSequences (b :: text) = b :: withoutSequences text := by
  have hfind : sequenceUnits.find? (· <+: b :: text) = none := by
    refine List.find?_eq_none.mpr ?_
    intro u hu hstart
    have hescape := sequenceUnits_escape u hu
    cases u with
    | nil => simp at hescape
    | cons x tail =>
      have hsame := (List.cons_prefix_cons.mp (of_decide_eq_true hstart)).1
      exact hb (hsame ▸ by simpa using hescape)
  rw [withoutSequences,hfind]

theorem withoutSequences_render {pieces : List Piece} (hfrom : ∀ p ∈ pieces, p.From decorations)
    (hdone : ∀ r, .marked r ∉ pieces) (hplain : ∀ b, .plain b ∈ pieces → b ≠ escByte) :
    withoutSequences (render pieces) = bareBytes pieces := by
  induction pieces with
  | nil => rw [render_nil,withoutSequences]; rfl
  | cons p pieces ih =>
    have hnext := ih (fun q hq => hfrom q (List.mem_cons_of_mem _ hq)) (fun r hr => hdone r (List.mem_cons_of_mem _ hr))
      (fun b hb => hplain b (List.mem_cons_of_mem _ hb))
    have hp := hfrom p List.mem_cons_self
    rw [render_cons]
    cases p with
    | plain b =>
      rw [Piece.bytes,List.singleton_append,withoutSequences_plain (hplain b List.mem_cons_self),hnext]
      rfl
    | marked r => exact absurd List.mem_cons_self (hdone r)
    | sequence s =>
      obtain ⟨rule,hrule,rfl⟩ := hp
      rw [Piece.bytes,withoutSequences_sequence hrule,hnext]
      rfl

/-- Rules add nothing but what they insert. -/
theorem mem_styledPieces {stylesEnabled : Bool} {todo : List (List Byte × List Byte)} {pieces : List Piece} {p : Piece}
    (h : p ∈ styledPieces stylesEnabled todo pieces) :
    p ∈ pieces ∨ stylesEnabled = true ∧ ∃ s, p = .sequence s := by
  induction todo generalizing pieces with
  | nil => exact .inl h
  | cons rule todo ih =>
    rcases ih h with hmem | hinserted
    · obtain ⟨q,hq,hsubstituted⟩ := List.mem_flatMap.mp hmem
      cases q with
      | plain b => exact .inl ((List.mem_singleton.mp hsubstituted) ▸ hq)
      | sequence s => exact .inl ((List.mem_singleton.mp hsubstituted) ▸ hq)
      | marked r =>
        by_cases hsame : r = rule
        · cases stylesEnabled with
          | false => simp [Piece.substitute,hsame,inserted] at hsubstituted
          | true => exact .inr ⟨rfl,rule.2,by simpa [Piece.substitute,hsame,inserted] using hsubstituted⟩
        · have hp : p = .marked r := by simpa [Piece.substitute,hsame] using hsubstituted
          exact .inl (hp ▸ hq)
    · exact .inr hinserted

section Texts

variable {text : List Byte}

theorem cutPieces_from : ∀ p ∈ cutPieces decorations text, p.From decorations := by
  intro p hp
  rcases (cutPieces_spec decorations_rule text).2.2 p hp with ⟨b,-,rfl⟩ | ⟨rule,hrule,rfl⟩
  · trivial
  · exact hrule

theorem styledPieces_done (stylesEnabled : Bool) :
    ∀ r, .marked r ∉ styledPieces stylesEnabled decorations (cutPieces decorations text) := by
  intro r hr
  obtain ⟨hnot,hmem⟩ := marked_styledPieces hr
  exact hnot (cutPieces_from _ hmem)

/-- Markers removed one kind after another leave what markers removed at once leave, as long as
that contains no marker. -/
theorem styled_plain (h : MarkerFree (withoutMarkers text)) : styled false decorations text = withoutMarkers text := by
  obtain ⟨hspell,hclean,hpieces⟩ := cutPieces_spec decorations_rule text
  obtain ⟨hstyled,-,-⟩ := styled_render decorations_rule decorations_distinct false (List.Subset.refl _)
    cutPieces_from hclean (fun _ => h)
  rw [hspell] at hstyled
  rw [hstyled,withoutMarkers,← bareBytes_styledPieces false decorations]
  have hplain : ∀ p ∈ styledPieces false decorations (cutPieces decorations text), ∃ b, p = .plain b := by
    intro p hp
    rcases mem_styledPieces hp with hmem | ⟨hstyles,-⟩
    · rcases hpieces p hmem with ⟨b,-,rfl⟩ | ⟨rule,hrule,rfl⟩
      · exact ⟨b,rfl⟩
      · exact absurd hp (styledPieces_done false rule)
    · simp at hstyles
  generalize styledPieces false decorations (cutPieces decorations text) = pieces at hplain
  induction pieces with
  | nil => rfl
  | cons p pieces ih =>
    obtain ⟨b,rfl⟩ := hplain p List.mem_cons_self
    rw [render_cons,ih (fun q hq => hplain q (List.mem_cons_of_mem _ hq))]
    rfl

/-- With styles no marker is left, and without the sequences the text is the one whose markers
were removed at once. -/
theorem styled_colored (hescape : escByte ∉ text) :
    withoutSequences (styled true decorations text) = withoutMarkers text ∧ MarkerFree (styled true decorations text) := by
  obtain ⟨hspell,hclean,hpieces⟩ := cutPieces_spec decorations_rule text
  obtain ⟨hstyled,hcleaned,hfrom⟩ := styled_render decorations_rule decorations_distinct true (List.Subset.refl _)
    cutPieces_from hclean (fun h => Bool.noConfusion h)
  rw [hspell] at hstyled
  have hdone := @styledPieces_done text true
  have hplain : ∀ b, .plain b ∈ styledPieces true decorations (cutPieces decorations text) → b ≠ escByte := by
    rintro b hb rfl
    rcases mem_styledPieces hb with hmem | ⟨-,s,hs⟩
    · rcases hpieces _ hmem with ⟨b',hb',heq⟩ | ⟨rule,-,heq⟩
      · exact hescape ((Piece.plain.inj heq) ▸ hb')
      · simp at heq
    · simp at hs
  refine ⟨?_,?_⟩
  · rw [hstyled,withoutSequences_render hfrom hdone hplain,bareBytes_styledPieces,withoutMarkers]
  · rw [hstyled]
    exact unmarked_render decorations_rule hfrom hcleaned hdone

end Texts

end Precizer.Logger

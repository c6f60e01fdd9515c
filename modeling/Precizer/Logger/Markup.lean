import Precizer.General.Replacement
import Precizer.Logger.Sanitizer

/-! # Markup

Markers such as `@{red}` are replaced in the order of the table, by terminal sequences or by
nothing. A marker is ASCII text, and no sequence contains its first byte, so that every rule
replaces whole characters of the text and leaves the inserted sequences whole.
-/
namespace Precizer.Logger
open General

def sizeMax : ℕ := 2 ^ 64 - 1

def ascii (text : String) : List Byte := text.toList.map fun c => UInt8.ofNat c.toNat

def escByte : Byte := 27

/-- `@` -/
def atSign : Byte := 64

/-- `@{name}` -/
def marker (name : String) : List Byte := atSign :: 123 :: (ascii name ++ [125])

def escape (body : String) : List Byte := escByte :: ascii body

def resetSequence : List Byte := escape "[0m"
def shorttab : List Byte := escape "[?5W"
def bold : List Byte := escape "[1m"
def black : List Byte := escape "[30m"
def gray : List Byte := escape "[90m"
def red : List Byte := escape "[31m"
def green : List Byte := escape "[32m"
def orange : List Byte := escape "[38;5;208m"
def yellow : List Byte := escape "[33m"
def blue : List Byte := escape "[34m"
def magenta : List Byte := escape "[35m"
def cyan : List Byte := escape "[36m"
def white : List Byte := escape "[37m"

/-- Each marker with its terminal sequence. -/
def decorations : List (List Byte × List Byte) :=
  [(marker "reset",resetSequence),(marker "shorttab",shorttab),(marker "bold",bold),(marker "black",black),
    (marker "gray",gray),(marker "red",red),(marker "green",green),(marker "orange",orange),
    (marker "yellow",yellow),(marker "blue",blue),(marker "magenta",magenta),(marker "cyan",cyan),
    (marker "white",white),(marker "boldblack",bold ++ black),(marker "boldred",bold ++ red),
    (marker "boldgreen",bold ++ green),(marker "boldyellow",bold ++ yellow),(marker "boldblue",bold ++ blue),
    (marker "boldmagenta",bold ++ magenta),(marker "boldcyan",bold ++ cyan),(marker "boldwhite",bold ++ white)]

def matchCount (search : List Byte) : List Byte → ℕ
  | [] => 0
  | x :: text =>
    if search <+: x :: text then matchCount search (text.drop (search.length - 1)) + 1
    else matchCount search text
termination_by text => text.length

/-- `reallocated` says whether a growing buffer is available. -/
def rationalLoggerReplaceAll (reallocated : Bool) (search replacement text : List Byte) : Option (List Byte) :=
  if search = [] ∨ text.length = sizeMax then none
  else if matchCount search text = 0 then some text
  else if search.length < replacement.length ∧
      ((sizeMax - text.length - 1) / (replacement.length - search.length) < matchCount search text ∨
        reallocated = false) then none
  else some (replaceAll search replacement text)

def replaceDecorations (reallocated stylesEnabled : Bool) :
    List (List Byte × List Byte) → List Byte → Option (List Byte)
  | [],text => some text
  | (search,sequence) :: rules,text =>
    match rationalLoggerReplaceAll reallocated search (if stylesEnabled then sequence else []) text with
    | none => none
    | some replaced => replaceDecorations reallocated stylesEnabled rules replaced

def rationalLoggerMarkupReplace (reallocated stylesEnabled : Bool) (text : List Byte) : Option (List Byte) :=
  replaceDecorations reallocated stylesEnabled decorations text

theorem matchCount_eq_zero {search text : List Byte} (h : matchCount search text = 0) :
    ∀ replacement, replaceAll search replacement text = text := by
  intro replacement
  induction text with
  | nil => exact replaceAll_nil
  | cons x rest ih =>
    rw [matchCount] at h
    split at h
    · cases h
    · rename_i hmatch
      rw [replaceAll_unmatched hmatch,ih h]

/-- A rule of the table: the marker starts with `@`, which occurs nowhere else in it, and is
printable ASCII; the sequence starts with an escape and does not contain `@`. -/
structure Rule (rule : List Byte × List Byte) : Prop where
  head : ∃ rest, rule.1 = atSign :: rest ∧ atSign ∉ rest
  printable : ∀ b ∈ rule.1, 0x20 < b.toNat ∧ b.toNat < 0x7F
  escapes : ∃ rest, rule.2 = escByte :: rest
  plain : atSign ∉ rule.2

theorem decorations_rule : ∀ rule ∈ decorations, Rule rule := by
  have hhead : ∀ rule ∈ decorations, rule.1 = atSign :: rule.1.tail ∧ atSign ∉ rule.1.tail := by decide +kernel
  have hprintable : ∀ rule ∈ decorations, ∀ b ∈ rule.1, 0x20 < b.toNat ∧ b.toNat < 0x7F := by decide +kernel
  have hescapes : ∀ rule ∈ decorations, rule.2 = escByte :: rule.2.tail := by decide +kernel
  have hplain : ∀ rule ∈ decorations, atSign ∉ rule.2 := by decide +kernel
  intro rule hrule
  exact ⟨⟨_,hhead rule hrule⟩,hprintable rule hrule,⟨_,hescapes rule hrule⟩,hplain rule hrule⟩

theorem Rule.ne_nil {rule : List Byte × List Byte} (h : Rule rule) : rule.1 ≠ [] := by
  obtain ⟨rest,hrest,-⟩ := h.head
  rw [hrest]
  exact List.cons_ne_nil _ _

/-- The markup of a text: every rule in turn. -/
def styled (stylesEnabled : Bool) (rules : List (List Byte × List Byte)) (text : List Byte) : List Byte :=
  rules.foldl (fun text rule => replaceAll rule.1 (if stylesEnabled then rule.2 else []) text) text

theorem rationalLoggerReplaceAll_sound {reallocated : Bool} {search replacement text replaced : List Byte}
    (h : rationalLoggerReplaceAll reallocated search replacement text = some replaced) :
    replaced = replaceAll search replacement text := by
  unfold rationalLoggerReplaceAll at h
  split_ifs at h with hinvalid hcount hgrowth
  · rw [matchCount_eq_zero hcount]
    exact (Option.some.inj h).symm
  · exact (Option.some.inj h).symm

/-- A line whose markup succeeded has every rule applied. -/
theorem replaceDecorations_sound {reallocated stylesEnabled : Bool} {rules : List (List Byte × List Byte)}
    {text replaced : List Byte} (h : replaceDecorations reallocated stylesEnabled rules text = some replaced) :
    replaced = styled stylesEnabled rules text := by
  induction rules generalizing text with
  | nil => exact (Option.some.inj h).symm
  | cons rule rules ih =>
    rw [replaceDecorations] at h
    split at h
    · cases h
    · rename_i next hnext
      rw [ih h,rationalLoggerReplaceAll_sound hnext]
      rfl

/-- Removing the markers needs no memory and succeeds on every text a line can hold. -/
theorem replaceDecorations_plain {rules : List (List Byte × List Byte)} (hrules : ∀ rule ∈ rules, Rule rule)
    (reallocated : Bool) {text : List Byte} (hlength : text.length < sizeMax) :
    replaceDecorations reallocated false rules text = some (styled false rules text) := by
  induction rules generalizing text with
  | nil => rfl
  | cons rule rules ih =>
    have hrule := hrules rule List.mem_cons_self
    have hle := @length_replaceAll_le _ _ rule.1 [] hrule.ne_nil (Nat.zero_le _) text
    have hreplaced : rationalLoggerReplaceAll reallocated rule.1 [] text = some (replaceAll rule.1 [] text) := by
      have hvalid : ¬ (rule.1 = [] ∨ text.length = sizeMax) := by
        rintro (hempty | hmax)
        · exact hrule.ne_nil hempty
        · omega
      rw [rationalLoggerReplaceAll,if_neg hvalid]
      split
      · rename_i hcount
        rw [matchCount_eq_zero hcount]
      · exact if_neg (fun hgrowth => absurd hgrowth.1 (Nat.not_lt_zero _))
    rw [replaceDecorations]
    simp only [Bool.false_eq_true,if_false]
    rw [hreplaced]
    exact ih (fun rule hmem => hrules rule (List.mem_cons_of_mem _ hmem)) (by omega)

theorem styled_without {rules : List (List Byte × List Byte)} {text : List Byte}
    (h : ∀ rule ∈ rules, ¬ rule.1 <:+: text) (stylesEnabled : Bool) : styled stylesEnabled rules text = text := by
  induction rules with
  | nil => rfl
  | cons rule rules ih =>
    have hstep := @replaceAll_without Byte _ rule.1 (if stylesEnabled then rule.2 else []) text
      (h rule List.mem_cons_self)
    exact (congrArg (styled stylesEnabled rules) hstep).trans (ih (fun r hr => h r (List.mem_cons_of_mem _ hr)))

theorem decorations_opening : ∀ rule ∈ decorations, [atSign,123] <+: rule.1 := by
  decide +kernel

/-- A piece of what is written: a character or an inserted sequence. -/
inductive Segment where
  | character (c : Char)
  | sequence (bytes : List Byte)

namespace Segment

def bytes : Segment → List Byte
  | character c => String.utf8EncodeChar c
  | sequence s => s

/-- Characters are permitted and sequences come from the given ones. -/
def Safe (sequences : List (List Byte)) : Segment → Prop
  | character c => Permitted c
  | sequence s => s ∈ sequences

end Segment

/-- The bytes consist of permitted characters and of whole sequences. -/
def Displayed (sequences : List (List Byte)) (bytes : List Byte) : Prop :=
  ∃ segments : List Segment, (∀ s ∈ segments, s.Safe sequences) ∧ bytes = segments.flatMap Segment.bytes

theorem DisplayText.displayed {bytes : List Byte} (h : DisplayText bytes) (sequences : List (List Byte)) :
    Displayed sequences bytes := by
  obtain ⟨characters,hpermitted,rfl⟩ := h
  refine ⟨characters.map .character,?_,by rw [List.flatMap_map]; rfl⟩
  intro s hs
  obtain ⟨c,hc,rfl⟩ := List.mem_map.mp hs
  exact hpermitted c hc

theorem Displayed.append {sequences : List (List Byte)} {a b : List Byte} (ha : Displayed sequences a)
    (hb : Displayed sequences b) : Displayed sequences (a ++ b) := by
  obtain ⟨segments,hsafe,rfl⟩ := ha
  obtain ⟨others,hothers,rfl⟩ := hb
  refine ⟨segments ++ others,?_,List.flatMap_append.symm⟩
  intro s hs
  exact (List.mem_append.mp hs).elim (hsafe s) (hothers s)

/-- The bytes of a character beyond ASCII are beyond ASCII. -/
theorem utf8EncodeChar_high {c : Char} (h : 0x80 ≤ c.val.toNat) : ∀ b ∈ String.utf8EncodeChar c, 0x80 ≤ b.toNat := by
  have hvalid : c.val.toNat < 0xD800 ∨ 0xDFFF < c.val.toNat ∧ c.val.toNat < 0x110000 := c.valid
  intro b hb
  generalize hv : c.val.toNat = v at h hvalid
  simp only [String.utf8EncodeChar,hv] at hb
  rw [if_neg (by omega)] at hb
  split at hb
  · simp only [List.mem_cons,List.not_mem_nil,or_false] at hb
    rcases hb with rfl | rfl <;> rw [toNat_ofNat (by omega)] <;> omega
  · split at hb
    · simp only [List.mem_cons,List.not_mem_nil,or_false] at hb
      rcases hb with rfl | rfl | rfl <;> rw [toNat_ofNat (by omega)] <;> omega
    · simp only [List.mem_cons,List.not_mem_nil,or_false] at hb
      rcases hb with rfl | rfl | rfl | rfl <;> rw [toNat_ofNat (by omega)] <;> omega

/-- The sequences start with an escape and do not contain `@`. -/
structure Sequences (sequences : List (List Byte)) : Prop where
  escapes : ∀ s ∈ sequences, ∃ rest, s = escByte :: rest
  plain : ∀ s ∈ sequences, atSign ∉ s

section Segments

variable {sequences : List (List Byte)} (hsequences : Sequences sequences)
include hsequences

/-- Printable ASCII at the start of a displayed text is made of whole characters. -/
theorem Displayed.cut {segments : List Segment} (hsafe : ∀ s ∈ segments, s.Safe sequences) {pattern : List Byte}
    (hprintable : ∀ b ∈ pattern, 0x20 < b.toNat ∧ b.toNat < 0x7F)
    (h : pattern <+: segments.flatMap Segment.bytes) :
    ∃ before after, segments = before ++ after ∧ before.flatMap Segment.bytes = pattern := by
  induction pattern generalizing segments with
  | nil => exact ⟨[],segments,rfl,rfl⟩
  | cons b pattern ih =>
    cases segments with
    | nil => exact absurd (List.prefix_nil.mp h) (List.cons_ne_nil _ _)
    | cons segment rest =>
      obtain ⟨hlow,hhigh⟩ := hprintable b List.mem_cons_self
      have hsegment : segment.bytes = [b] := by
        cases segment with
        | character c =>
          by_cases hascii : c.val.toNat < 0x80
          · rw [List.flatMap_cons,Segment.bytes,utf8EncodeChar_ascii hascii] at h
            rw [Segment.bytes,utf8EncodeChar_ascii hascii,(List.cons_prefix_cons.mp h).1]
          · obtain ⟨byte,tail,hbytes⟩ := List.exists_cons_of_ne_nil (@String.utf8EncodeChar_ne_nil c)
            have hbyte := utf8EncodeChar_high (Nat.le_of_not_lt hascii) byte (hbytes ▸ List.mem_cons_self)
            rw [List.flatMap_cons,Segment.bytes,hbytes] at h
            have hsame := (List.cons_prefix_cons.mp h).1
            subst hsame
            omega
        | sequence s =>
          obtain ⟨tail,rfl⟩ := hsequences.escapes s (hsafe _ List.mem_cons_self)
          have hsame := (List.cons_prefix_cons.mp h).1
          subst hsame
          exact absurd hlow (by decide)
      rw [List.flatMap_cons,hsegment] at h
      obtain ⟨before,after,rfl,hbefore⟩ := ih (fun s hs => hsafe s (List.mem_cons_of_mem _ hs))
        (fun b hb => hprintable b (List.mem_cons_of_mem _ hb)) (List.cons_prefix_cons.mp h).2
      refine ⟨segment :: before,after,rfl,?_⟩
      rw [List.flatMap_cons,hsegment,hbefore]
      rfl

/-- A marker can only start at the first byte of a segment. -/
theorem Segment.tail_notMem {segment : Segment} (hsafe : segment.Safe sequences) : atSign ∉ segment.bytes.tail := by
  cases segment with
  | character c =>
    by_cases hascii : c.val.toNat < 0x80
    · rw [Segment.bytes,utf8EncodeChar_ascii hascii]
      exact List.not_mem_nil
    · intro hmem
      have hhigh := utf8EncodeChar_high (Nat.le_of_not_lt hascii) atSign (List.mem_of_mem_tail hmem)
      exact absurd hhigh (by decide)
  | sequence s => exact fun hmem => hsequences.plain s hsafe (List.mem_of_mem_tail hmem)

theorem Segment.bytes_ne_nil {segment : Segment} (hsafe : segment.Safe sequences) : segment.bytes ≠ [] := by
  cases segment with
  | character c => exact String.utf8EncodeChar_ne_nil
  | sequence s =>
    obtain ⟨rest,hrest⟩ := hsequences.escapes s hsafe
    rw [Segment.bytes,hrest]
    exact List.cons_ne_nil _ _

theorem Displayed.replaceAll {rule : List Byte × List Byte} (hrule : Rule rule) {replacement : List Byte}
    (hreplacement : Displayed sequences replacement) {bytes : List Byte} (h : Displayed sequences bytes) :
    Displayed sequences (replaceAll rule.1 replacement bytes) := by
  obtain ⟨segments,hsafe,rfl⟩ := h
  obtain ⟨pattern,hpattern,hhead⟩ := hrule.head
  induction hlength : segments.length using Nat.strong_induction_on generalizing segments with
  | _ n ih =>
    cases segments with
    | nil => exact ⟨[],by simp,by simp⟩
    | cons segment rest =>
      obtain ⟨x,tail,hbytes⟩ := List.exists_cons_of_ne_nil
        (Segment.bytes_ne_nil hsequences (hsafe segment List.mem_cons_self))
      by_cases hmatch : rule.1 <+: (segment :: rest).flatMap Segment.bytes
      · obtain ⟨before,after,hsplit,hbefore⟩ := Displayed.cut hsequences hsafe hrule.printable hmatch
        have hshorter : after.length < n := by
          have hnonempty : before ≠ [] := by
            rintro rfl
            exact hrule.ne_nil hbefore.symm
          have hcount := congrArg List.length hsplit
          have hpos := List.length_pos_of_ne_nil hnonempty
          rw [List.length_append] at hcount
          omega
        rw [hsplit,List.flatMap_append,hbefore,replaceAll_search_append hrule.ne_nil]
        refine hreplacement.append (ih _ hshorter after ?_ rfl)
        intro s hs
        exact hsafe s (hsplit ▸ List.mem_append_right before hs)
      · have hpassed : General.replaceAll rule.1 replacement ((segment :: rest).flatMap Segment.bytes) =
            segment.bytes ++ General.replaceAll rule.1 replacement (rest.flatMap Segment.bytes) := by
          have htail := Segment.tail_notMem hsequences (hsafe segment List.mem_cons_self)
          rw [List.flatMap_cons,hbytes,List.cons_append] at hmatch ⊢
          rw [hbytes,List.tail_cons] at htail
          rw [replaceAll_unmatched hmatch,hpattern,replaceAll_append_of_head_notMem htail]
          rfl
        rw [hpassed]
        refine Displayed.append ⟨[segment],?_,by simp⟩ (ih _ ?_ rest ?_ rfl)
        · intro s hs
          rw [List.mem_singleton] at hs
          exact hs ▸ hsafe segment List.mem_cons_self
        · rw [← hlength,List.length_cons]
          omega
        · exact fun s hs => hsafe s (List.mem_cons_of_mem _ hs)

end Segments

/-- The sequences the table may insert. -/
def insertable (stylesEnabled : Bool) : List (List Byte) :=
  if stylesEnabled then decorations.map Prod.snd else []

theorem insertable_sequences (stylesEnabled : Bool) : Sequences (insertable stylesEnabled) := by
  cases stylesEnabled with
  | false => exact ⟨by simp [insertable],by simp [insertable]⟩
  | true =>
    constructor
    · intro s hs
      obtain ⟨rule,hrule,rfl⟩ := List.mem_map.mp hs
      exact (decorations_rule rule hrule).escapes
    · intro s hs
      obtain ⟨rule,hrule,rfl⟩ := List.mem_map.mp hs
      exact (decorations_rule rule hrule).plain

theorem styled_displayed (stylesEnabled : Bool) {rules : List (List Byte × List Byte)} (hrules : rules ⊆ decorations)
    {text : List Byte} (h : Displayed (insertable stylesEnabled) text) :
    Displayed (insertable stylesEnabled) (styled stylesEnabled rules text) := by
  induction rules generalizing text with
  | nil => exact h
  | cons rule rules ih =>
    have hmem := hrules List.mem_cons_self
    refine ih (fun rule hr => hrules (List.mem_cons_of_mem _ hr)) ?_
    refine Displayed.replaceAll (insertable_sequences stylesEnabled) (decorations_rule rule hmem) ?_ h
    cases stylesEnabled with
    | false => exact DisplayText.nil.displayed _
    | true =>
      refine ⟨[.sequence rule.2],?_,by simp [Segment.bytes]⟩
      intro s hs
      rw [List.mem_singleton] at hs
      exact hs ▸ List.mem_map_of_mem hmem

end Precizer.Logger

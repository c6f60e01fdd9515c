import Precizer.Settings.IniEntries

/-! # Documents

A document is what the author of a settings file means: comments, section headers, names with
values, and further values of the name before. A line lays its item out with spaces and comments
of the author's choice, and reading the written document gives back what was meant.
-/
namespace Precizer.Settings
open General

structure Padding where
  text : Text
  space : AllSpace text
  sameLine : newline ∉ text

/-- What may follow a value: spaces, and a comment after at least one of them. -/
structure Tail where
  padding : Padding
  remark : Option Text
  apart : remark ≠ none → padding.text ≠ []
  inline : ∀ text ∈ remark, Inline text

/-- A name with its value, and how the line shows them. -/
structure Setting where
  name : Text
  value : Text
  before : Padding
  separator : UInt8
  after : Padding
  tail : Tail
  name_ne_nil : name ≠ []
  nameText : NameText name
  name_trimmed : Trimmed name
  isSeparator : separator = equalsSign ∨ separator = colon
  value_inline : Inline value
  value_trimmed : Trimmed value
  value_plain : Plain [] false (after.text ++ value)

/-- One more value of the name before, indented. -/
structure Continuation where
  indent : Padding
  value : Text
  tail : Tail
  indented : indent.text ≠ []
  value_ne_nil : value ≠ []
  value_inline : Inline value
  value_trimmed : Trimmed value
  value_plain : Plain [] true value

/-- A section header, and what its line holds after the bracket. -/
structure Header where
  name : Text
  rest : Text
  name_inline : Inline name
  name_plain : Plain [closeBracket] false name
  rest_inline : Inline rest

inductive Item where
  | blank (padding : Padding)
  | comment (indent : Padding) (text : Text) (inline : Inline text)
  | header (h : Header)
  | setting (s : Setting)
  | continuation (c : Continuation)

def Tail.render (t : Tail) : Text :=
  match t.remark with
  | none => t.padding.text
  | some text => t.padding.text ++ numberSign :: text

def Item.render : Item → Text
  | .blank padding => padding.text
  | .comment indent text _ => indent.text ++ numberSign :: text
  | .header h => openBracket :: (h.name ++ closeBracket :: h.rest)
  | .setting s => s.name ++ (s.before.text ++ s.separator :: (s.after.text ++ (s.value ++ s.tail.render)))
  | .continuation c => c.indent.text ++ (c.value ++ c.tail.render)

def Item.names (p : Parser) : Item → Parser
  | .header h => { p with sectionName := iniStrncpy0 iniMaxSection h.name, prevName := [] }
  | .setting s => { p with prevName := iniStrncpy0 iniMaxName s.name }
  | _ => p

def Item.line (p : Parser) : Item → Line
  | .blank _ => .nothing
  | .comment _ _ _ => .nothing
  | .header _ => .entry none
  | .setting s => .entry (some (s.name,s.value))
  | .continuation c => .entry (some (p.prevName,c.value))

/-- A continuation stands below a setting of its section. -/
def Placed : Bool → List Item → Prop
  | _, [] => True
  | named, .blank _ :: items => Placed named items
  | named, .comment _ _ _ :: items => Placed named items
  | _, .header _ :: items => Placed false items
  | _, .setting _ :: items => Placed true items
  | named, .continuation _ :: items => named = true ∧ Placed named items

/-- The calls that the items mean, the first of them on the line after the parser's. -/
def itemCalls (p : Parser) : List Item → List Call
  | [] => []
  | item :: items =>
    (item.names { p with lineno := p.lineno + 1 }).calls (item.line { p with lineno := p.lineno + 1 }) ++
      itemCalls (item.names { p with lineno := p.lineno + 1 }) items

/-- The lines of the items; the last of them may lack its newline. -/
def renderItems (terminated : Bool) : List Item → Text
  | [] => []
  | [item] => item.render ++ if terminated then [newline] else []
  | item :: items => item.render ++ newline :: renderItems terminated items

def Item.Fits (item : Item) : Prop := item.render.length + 1 < iniMaxLine

instance : DecidablePred Item.Fits := fun _ => inferInstanceAs (Decidable (_ < _))

/-- A file: the lines of its items, after the mark or without it. Every line fits. -/
structure Document where
  items : List Item
  marked : Bool
  terminated : Bool
  placed : Placed false items
  fits : ∀ item ∈ items, item.Fits
  fits_marked : marked = true → ∀ item ∈ items.head?, byteOrderMark.length + item.render.length + 1 < iniMaxLine
  unmarked : marked = false → ¬byteOrderMark <+: renderItems terminated items

def Document.render (d : Document) : Text :=
  (if d.marked then byteOrderMark else []) ++ renderItems d.terminated d.items

def Document.calls (d : Document) : List Call := itemCalls {} d.items

theorem inline_append {s t : Text} : Inline (s ++ t) ↔ Inline s ∧ Inline t := by
  constructor
  · exact fun h => ⟨h.of_subset (List.subset_append_left s t),h.of_subset (List.subset_append_right s t)⟩
  · rintro ⟨hs,ht⟩
    refine ⟨?_,?_⟩
    · intro hmem
      exact (List.mem_append.mp hmem).elim hs.noTerminator ht.noTerminator
    · intro hmem
      exact (List.mem_append.mp hmem).elim hs.noNewline ht.noNewline

theorem inline_cons {c : UInt8} (hzero : c ≠ 0) (hnewline : c ≠ newline) {s : Text} : Inline (c :: s) ↔ Inline s := by
  refine ⟨fun h => h.of_subset (List.subset_cons_self c s),fun h => ⟨?_,?_⟩⟩
  · intro hmem
    exact (List.mem_cons.mp hmem).elim (fun heq => hzero heq.symm) h.noTerminator
  · intro hmem
    exact (List.mem_cons.mp hmem).elim (fun heq => hnewline heq.symm) h.noNewline

theorem Padding.inline (p : Padding) : Inline p.text := by
  refine ⟨?_,p.sameLine⟩
  intro hmem
  have hspace := p.space 0 hmem
  cases hspace

theorem Tail.render_inline (t : Tail) : Inline t.render := by
  unfold Tail.render
  split
  · exact t.padding.inline
  · rename_i text htext
    exact inline_append.mpr ⟨t.padding.inline,(inline_cons (by decide) (by decide)).mpr (t.inline text htext)⟩

/-- Every item stays on its line. -/
theorem Item.render_inline (item : Item) : Inline item.render := by
  cases item with
  | blank padding => exact padding.inline
  | comment indent text htext =>
    exact inline_append.mpr ⟨indent.inline,(inline_cons (by decide) (by decide)).mpr htext⟩
  | header h =>
    refine (inline_cons (by decide) (by decide)).mpr (inline_append.mpr ⟨h.name_inline,?_⟩)
    exact (inline_cons (by decide) (by decide)).mpr h.rest_inline
  | setting s =>
    have hseparator : s.separator ≠ 0 ∧ s.separator ≠ newline := by
      rcases s.isSeparator with heq | heq <;> rw [heq] <;> decide
    refine inline_append.mpr ⟨s.nameText.inline,inline_append.mpr ⟨s.before.inline,?_⟩⟩
    refine (inline_cons hseparator.1 hseparator.2).mpr (inline_append.mpr ⟨s.after.inline,?_⟩)
    exact inline_append.mpr ⟨s.value_inline,s.tail.render_inline⟩
  | continuation c =>
    exact inline_append.mpr ⟨c.indent.inline,inline_append.mpr ⟨c.value_inline,c.tail.render_inline⟩⟩

theorem readLine_line {line : Text} (hline : newline ∉ line) {room : ℕ} (hroom : line.length < room) (rest : Text) :
    readLine room (line ++ newline :: rest) = (line ++ [newline],rest) := by
  induction line generalizing room with
  | nil =>
    obtain ⟨room,rfl⟩ := Nat.exists_eq_succ_of_ne_zero (Nat.ne_of_gt hroom)
    exact if_pos rfl
  | cons c line ih =>
    obtain ⟨room,rfl⟩ := Nat.exists_eq_succ_of_ne_zero (Nat.ne_of_gt ((Nat.zero_le _).trans_lt hroom))
    rw [List.mem_cons,not_or] at hline
    rw [List.cons_append,readLine,if_neg (Ne.symm hline.1),ih hline.2 (Nat.lt_of_succ_lt_succ hroom)]
    rfl

theorem readLine_all {line : Text} (hline : newline ∉ line) {room : ℕ} (hroom : line.length ≤ room) :
    readLine room line = (line,[]) := by
  induction line generalizing room with
  | nil => cases room <;> rfl
  | cons c line ih =>
    obtain ⟨room,rfl⟩ := Nat.exists_eq_succ_of_ne_zero (Nat.ne_of_gt ((Nat.zero_lt_succ _).trans_le hroom))
    rw [List.mem_cons,not_or] at hline
    rw [readLine,if_neg (Ne.symm hline.1),ih hline.2 (Nat.le_of_succ_le_succ hroom)]

theorem fgets_line {size : ℕ} {line : Text} (hline : newline ∉ line) (hfits : line.length + 1 < size) (rest : Text) (failing : Bool) :
    fgets size ⟨line ++ newline :: rest,failing⟩ = some (line ++ [newline],⟨rest,failing⟩) := by
  have hread : readLine (size - 1) (line ++ newline :: rest) = (line ++ [newline],rest) := readLine_line hline (by omega) rest
  have hinterrupted : interrupted size ⟨line ++ newline :: rest,failing⟩ = false := by
    simp [interrupted,hread]
  unfold fgets
  rw [hinterrupted,hread,if_neg (by simp)]

theorem fgets_all {size : ℕ} {line : Text} (hne : line ≠ []) (hline : newline ∉ line) (hfits : line.length < size) :
    fgets size ⟨line,false⟩ = some (line,⟨[],false⟩) := by
  have hread : readLine (size - 1) line = (line,[]) := readLine_all hline (by omega)
  unfold fgets
  rw [hread,if_neg (by simp [hne,interrupted])]

theorem cString_of_noTerminator {line : Text} (h : 0 ∉ line) : cString line = line := by
  rw [cString,List.takeWhile_eq_self_iff]
  intro c hc
  rw [decide_eq_true_iff]
  rintro rfl
  exact h hc

end Precizer.Settings

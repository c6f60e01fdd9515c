import Precizer.Settings.IniCalls

/-! # What a handler is given

Whatever a stream holds, names and values stay on their lines, fit the arrays that they are
copied to, and contain no terminator, no separator and no comment.
-/
namespace Precizer.Settings
open General

/-- A line as string functions see it: at most its last byte is a newline. -/
structure LineText (line : Text) : Prop where
  noTerminator : 0 ∉ line
  noNewline : newline ∉ line.dropLast
  fits : line.length < iniMaxLine

structure NameText (name : Text) : Prop where
  inline : Inline name
  plain : Plain [equalsSign,colon] false name
  first : ∀ c ∈ name.head?, isSpace c = false ∧ c ≠ numberSign ∧ c ≠ openBracket
  fits : name.length < iniMaxLine

instance : DecidablePred NameText := fun name =>
  decidable_of_iff (Inline name ∧ Plain [equalsSign,colon] false name ∧
      name.head?.all (fun c => isSpace c = false ∧ c ≠ numberSign ∧ c ≠ openBracket) = true ∧ name.length < iniMaxLine) <| by
    rw [Option.all_eq_true]
    constructor
    · rintro ⟨hline,hplain,hfirst,hfits⟩
      exact ⟨hline,hplain,fun c hc => of_decide_eq_true (hfirst c hc),hfits⟩
    · rintro ⟨hline,hplain,hfirst,hfits⟩
      exact ⟨hline,hplain,fun c hc => decide_eq_true (hfirst c hc),hfits⟩

structure ValueText (value : Text) : Prop where
  inline : Inline value
  plain : Plain [] false value
  trimmed : Trimmed value
  fits : value.length < iniMaxLine

structure Call.WellFormed (c : Call) : Prop where
  section_fits : c.sectionName.length < iniMaxSection
  name : ∀ name value, c.entry = some (name,value) → NameText name
  value : ∀ name value, c.entry = some (name,value) → ValueText value

/-- The names that the parser keeps fit their arrays. -/
structure Parser.Sound (p : Parser) : Prop where
  section_fits : p.sectionName.length < iniMaxSection
  name : NameText p.prevName
  name_fits : p.prevName.length < iniMaxName

theorem nameText_nil : NameText [] where
  inline := ⟨List.not_mem_nil,List.not_mem_nil⟩
  plain := trivial
  first _ h := by cases h
  fits := by decide

theorem sound_start : Parser.Sound {} := ⟨by decide,nameText_nil,by decide⟩

theorem Inline.of_subset {s t : Text} (h : Inline t) (hsubset : s ⊆ t) : Inline s :=
  ⟨fun hmem => h.noTerminator (hsubset hmem),fun hmem => h.noNewline (hsubset hmem)⟩

theorem length_iniStrncpy0 {size : ℕ} (hsize : 0 < size) (source : Text) : (iniStrncpy0 size source).length < size := by
  rw [iniStrncpy0,List.length_take]
  omega

theorem NameText.start {name start : Text} (h : NameText name) (hbegins : start <+: name) : NameText start := by
  obtain ⟨rest,rfl⟩ := hbegins
  refine ⟨h.inline.of_subset (List.subset_append_left _ _),(Plain.append.mp h.plain).1,?_,?_⟩
  · intro c hc
    exact h.first c (head_of_start (List.prefix_append start rest) hc)
  · have hfits := h.fits
    rw [List.length_append] at hfits
    omega

theorem rstrip_start (s : Text) : iniRstrip s <+: s := by
  obtain ⟨spaces,-,heq⟩ := rstrip_split s
  exact ⟨spaces,heq.symm⟩

theorem lskip_suffix (s : Text) : iniLskip s <:+ s := by
  obtain ⟨spaces,-,heq⟩ := lskip_split s
  exact ⟨spaces,heq.symm⟩

theorem newline_readLine (room : ℕ) (bytes : Text) : newline ∉ (readLine room bytes).1.dropLast := by
  fun_induction readLine room bytes with
  | case1 => exact List.not_mem_nil
  | case2 => exact List.not_mem_nil
  | case3 => exact List.not_mem_nil
  | case4 room c bytes hc ih =>
    intro hmem
    cases hrest : (readLine room bytes).1 with
    | nil =>
      rw [hrest] at hmem
      cases hmem
    | cons d rest =>
      rw [hrest] at hmem ih
      rw [List.dropLast_cons_of_ne_nil (List.cons_ne_nil d rest)] at hmem
      rcases List.mem_cons.mp hmem with heq | hmem
      · exact hc heq.symm
      · exact ih hmem

theorem lineText_read {size : ℕ} {stream rest : Stream} {read : Text} (hsize : 0 < size) (hfits : size ≤ iniMaxLine)
    (h : fgets size stream = some (read,rest)) : LineText (cString read) := by
  have hread : read = (readLine (size - 1) stream.bytes).1 := by
    unfold fgets at h
    split at h
    · cases h
    · cases h
      rfl
  have hlength := length_readLine_le (size - 1) stream.bytes
  rw [← hread] at hlength
  have hbegins : cString read <+: read := List.takeWhile_prefix _
  refine ⟨?_,?_,?_⟩
  · intro hmem
    have hne := List.mem_takeWhile_imp hmem
    simp at hne
  · intro hmem
    have hnewline := newline_readLine (size - 1) stream.bytes
    rw [← hread] at hnewline
    apply hnewline
    obtain ⟨rest,hrest⟩ := hbegins
    rw [← hrest]
    cases rest with
    | nil => rwa [List.append_nil]
    | cons c rest =>
      rw [List.dropLast_append_of_ne_nil (List.cons_ne_nil c rest)]
      exact List.mem_append_left _ (List.mem_of_mem_dropLast hmem)
  · have := hbegins.length_le
    omega

theorem LineText.inline {line part : Text} (h : LineText line) (hwithin : part <:+: line)
    (hlast : ∀ c ∈ part.getLast?, isSpace c = false) : Inline part := by
  obtain ⟨before,after,rfl⟩ := hwithin
  refine ⟨fun hmem => h.noTerminator (by simp [hmem]),?_⟩
  intro hmem
  obtain ⟨first,second,rfl⟩ := List.append_of_mem hmem
  apply h.noNewline
  have hsecond : second ≠ [] := by
    rintro rfl
    have hspace := hlast newline (by simp)
    cases hspace
  have hsplit : before ++ (first ++ newline :: second) ++ after = (before ++ first ++ [newline]) ++ (second ++ after) := by
    simp
  rw [hsplit,List.dropLast_append_of_ne_nil (by simp [hsecond])]
  simp

theorem find_fst_start (chars : Text) (wasSpace : Bool) (s : Text) : (iniFindCharsOrComment chars wasSpace s).1 <+: s :=
  ⟨_,find_append chars wasSpace s⟩

theorem plain_of_suffix {chars s t : Text} {wasSpace : Bool} (h : Plain chars wasSpace (s ++ t))
    (hfirst : s = [] → wasSpace = false) (hspace : AllSpace s) : Plain chars false t := by
  have hplain := (Plain.append.mp h).2
  cases s with
  | nil => rwa [spaceAfter,hfirst rfl] at hplain
  | cons c s =>
    rw [spaceAfter_allSpace hspace (List.cons_ne_nil c s)] at hplain
    exact hplain.weaken false

theorem valueText_iniValue {line text : Text} (hline : LineText line) (h : text <:+: line) : ValueText (iniValue text) := by
  set found := (iniFindCharsOrComment [] false text).1 with hfound
  have hplain : Plain [] false found := find_plain [] false text
  obtain ⟨spaces,hspaces,hskip⟩ := lskip_split found
  have hskipped : Plain [] false (iniLskip found) := by
    rw [hskip] at hplain
    exact plain_of_suffix hplain (fun _ => rfl) hspaces
  have hvalue : iniValue text = iniRstrip (iniLskip found) := rfl
  have hwithin : iniValue text <:+: line := by
    rw [hvalue]
    exact ((rstrip_start _).isInfix.trans (lskip_suffix _).isInfix).trans
      ((find_fst_start [] false text).isInfix.trans h)
  have hlast : ∀ c ∈ (iniValue text).getLast?, isSpace c = false := last_rstrip _
  refine ⟨hline.inline hwithin hlast,?_,⟨?_,hlast⟩,?_⟩
  · obtain ⟨tail,-,heq⟩ := rstrip_split (iniLskip found)
    rw [hvalue]
    rw [heq] at hskipped
    exact (Plain.append.mp hskipped).1
  · intro c hc
    exact first_lskip found c (head_of_start (rstrip_start _) hc)
  · exact hwithin.length_le.trans_lt hline.fits

theorem valueText_continuation {line start : Text} (hline : LineText line) (h : start <:+: line)
    (hfirst : ∀ c ∈ start.head?, isSpace c = false) :
    ValueText (iniRstrip (iniFindCharsOrComment [] false start).1) := by
  have hvalue := valueText_iniValue hline h
  have hskip : iniLskip (iniFindCharsOrComment [] false start).1 = (iniFindCharsOrComment [] false start).1 := by
    apply lskip_of_first
    intro c hc
    exact hfirst c (head_of_start (find_fst_start [] false start) hc)
  rwa [iniValue,hskip] at hvalue

theorem iniParseSection_sound {p : Parser} (hp : p.Sound) (start : Text) :
    (iniParseSection p start).1.Sound ∧
      ∀ e, (iniParseSection p start).2 = .entry e → ((iniParseSection p start).1.call e).WellFormed := by
  unfold iniParseSection
  split
  · split
    · rename_i name _ _ _ _
      have hsound : Parser.Sound { p with sectionName := iniStrncpy0 iniMaxSection name, prevName := [] } :=
        ⟨length_iniStrncpy0 (by decide) name,nameText_nil,Nat.zero_lt_succ _⟩
      refine ⟨hsound,?_⟩
      intro e he
      cases he
      refine ⟨hsound.section_fits,?_,?_⟩
      · intro name' value hentry
        cases hentry
      · intro name' value hentry
        cases hentry
    · exact ⟨hp,fun e he => by cases he⟩
  · exact ⟨hp,fun e he => by cases he⟩

theorem iniParsePair_sound {p : Parser} (hp : p.Sound) {line start : Text} (hline : LineText line) (h : start <:+: line)
    (hfirst : ∀ c ∈ start.head?, isSpace c = false ∧ c ≠ numberSign ∧ c ≠ openBracket) :
    (iniParsePair p start).1.Sound ∧
      ∀ e, (iniParsePair p start).2 = .entry e → ((iniParsePair p start).1.call e).WellFormed := by
  unfold iniParsePair
  split
  · rename_i name c rest hfind
    split
    · have hsplit : name ++ c :: rest = start := by
        have happend := find_append [equalsSign,colon] false start
        rwa [hfind] at happend
      have hplain : Plain [equalsSign,colon] false name := by
        have hplain := find_plain [equalsSign,colon] false start
        rwa [hfind] at hplain
      have hbegins : iniRstrip name <+: start := (rstrip_start name).trans ⟨c :: rest,hsplit⟩
      have hname : NameText (iniRstrip name) := by
        refine ⟨hline.inline (hbegins.isInfix.trans h) (last_rstrip name),?_,?_,?_⟩
        · obtain ⟨spaces,-,heq⟩ := rstrip_split name
          rw [heq] at hplain
          exact (Plain.append.mp hplain).1
        · intro d hd
          exact hfirst d (head_of_start hbegins hd)
        · exact (hbegins.isInfix.trans h).length_le.trans_lt hline.fits
      have hrest : rest <:+: line := by
        refine List.IsInfix.trans ?_ h
        exact ⟨name ++ [c],[],by rw [List.append_nil,List.append_assoc,List.singleton_append,hsplit]⟩
      refine ⟨⟨hp.section_fits,hname.start (List.take_prefix _ _),length_iniStrncpy0 (by decide) _⟩,?_⟩
      intro e he
      cases he
      refine ⟨hp.section_fits,?_,?_⟩
      · intro name' value' hentry
        cases hentry
        exact hname
      · intro name' value' hentry
        cases hentry
        exact valueText_iniValue hline hrest
    · exact ⟨hp,fun e he => by cases he⟩
  · exact ⟨hp,fun e he => by cases he⟩

theorem unmarked_suffix (p : Parser) (line : Text) : unmarked p line <:+ line := by
  unfold unmarked
  split
  · exact List.drop_suffix _ line
  · exact List.suffix_rfl

theorem iniParseLine_sound {p : Parser} (hp : p.Sound) {line : Text} (hline : LineText line) :
    (iniParseLine p line).1.Sound ∧ ∀ e, (iniParseLine p line).2 = .entry e → ((iniParseLine p line).1.call e).WellFormed := by
  have hskipped : iniLskip (unmarked p line) <:+: line := ((lskip_suffix _).trans (unmarked_suffix p line)).isInfix
  have hstart : iniRstrip (iniLskip (unmarked p line)) <:+: line := (rstrip_start _).isInfix.trans hskipped
  have hfirst : ∀ c ∈ (iniRstrip (iniLskip (unmarked p line))).head?, isSpace c = false := by
    intro c hc
    exact first_lskip (unmarked p line) c (head_of_start (rstrip_start _) hc)
  unfold iniParseLine
  dsimp only
  split
  · exact ⟨hp,fun e he => by cases he⟩
  · rename_i hcomment
    split
    · refine ⟨hp,?_⟩
      intro e he
      cases he
      refine ⟨hp.section_fits,?_,?_⟩
      · intro name value hentry
        cases hentry
        exact hp.name
      · intro name value hentry
        cases hentry
        exact valueText_continuation hline hstart hfirst
    · split
      · exact iniParseSection_sound hp _
      · rename_i hbracket
        apply iniParsePair_sound hp hline hstart
        intro c hc
        refine ⟨hfirst c hc,?_,?_⟩
        · rintro rfl
          exact hcomment (.inr hc)
        · rintro rfl
          exact hbracket hc

theorem Parser.Sound.of_eq {p q : Parser} (h : p.Sound) (hsection : q.sectionName = p.sectionName)
    (hprev : q.prevName = p.prevName) : q.Sound := by
  refine ⟨?_,?_,?_⟩
  · rw [hsection]
    exact h.section_fits
  · rw [hprev]
    exact h.name
  · rw [hprev]
    exact h.name_fits

theorem wellFormed_iniCalls {p : Parser} (hp : p.error = 0) (hsound : p.Sound) (stream : Stream) :
    ∀ c ∈ (iniCalls p stream).2, c.WellFormed := by
  refine iniCalls_all ?_ p stream hp hsound
  intro p read stream rest hread herror hsound next hnext parsed hparsed
  obtain ⟨-,-,hsection,hprev⟩ := iniNextLine_keeps herror (cString read) rest
  have hline := lineText_read (by decide) le_rfl hread
  obtain ⟨hafter,hentry⟩ := iniParseLine_sound (hsound.of_eq hsection hprev) hline
  rw [← hnext,← hparsed] at hafter hentry
  refine ⟨?_,?_⟩
  · cases hkind : parsed.2 with
    | nothing => exact hafter
    | invalid => exact hafter.of_eq parsed.1.failed_sectionName parsed.1.failed_prevName
    | entry e => exact hafter
  · intro c hc
    cases hkind : parsed.2 with
    | nothing => rw [hkind] at hc; cases hc
    | invalid => rw [hkind] at hc; cases hc
    | entry e =>
      rw [hkind] at hc
      rw [List.mem_singleton.mp hc]
      exact hentry e hkind

end Precizer.Settings

import Precizer.Settings.IniDocument

/-! # Reading a document back

Every item is recognized on its line whatever spaces and comments surround it, so that the calls
of a written document are what the document means.
-/
namespace Precizer.Settings
open General

theorem allSpace_nil : AllSpace [] := by
  intro c hc
  cases hc

def Padding.none : Padding := ⟨[],allSpace_nil,List.not_mem_nil⟩

theorem AllSpace.append {s t : Text} (hs : AllSpace s) (ht : AllSpace t) : AllSpace (s ++ t) := by
  intro c hc
  exact (List.mem_append.mp hc).elim (hs c) (ht c)

theorem lskip_allSpace {s : Text} (h : AllSpace s) : iniLskip s = [] := by
  have happend := lskip_append_spaces h []
  rwa [List.append_nil] at happend

theorem rstrip_lskip_append_spaces {spaces : Text} (h : AllSpace spaces) (s : Text) :
    iniRstrip (iniLskip (s ++ spaces)) = iniRstrip (iniLskip s) := by
  obtain ⟨before,hbefore,heq⟩ := lskip_split s
  cases hskip : iniLskip s with
  | nil =>
    rw [hskip,List.append_nil] at heq
    rw [heq,lskip_allSpace (hbefore.append h)]
  | cons c t =>
    have hfirst : ∀ d ∈ (c :: t ++ spaces).head?, isSpace d = false := by
      intro d hd
      exact first_lskip s d (by rw [hskip]; exact hd)
    rw [heq,hskip,List.append_assoc,lskip_append_spaces hbefore,lskip_of_first hfirst,rstrip_append_spaces h]

/-- What ends the search is a separator or a comment. -/
theorem find_stopped {chars : Text} {wasSpace : Bool} {s found rest : Text} {c : UInt8}
    (h : iniFindCharsOrComment chars wasSpace s = (found,c :: rest)) :
    c ∈ chars ∨ (spaceAfter wasSpace found = true ∧ c = numberSign) := by
  induction s generalizing wasSpace found with
  | nil => cases h
  | cons d s ih =>
    rw [iniFindCharsOrComment] at h
    split at h
    · rename_i hstop
      cases h
      exact hstop
    · cases hfind : iniFindCharsOrComment chars (isSpace d) s with
      | mk found' rest' =>
        rw [hfind] at h
        cases h
        have hstopped := ih hfind
        exact hstopped

theorem iniValue_append_spaces {spaces : Text} (h : AllSpace spaces) (s : Text) : iniValue (s ++ spaces) = iniValue s := by
  have happend := find_append [] false s
  have hplain := find_plain [] false s
  cases hfind : iniFindCharsOrComment [] false s with
  | mk found rest =>
    rw [hfind] at happend hplain
    cases rest with
    | nil =>
      rw [List.append_nil] at happend
      have hall : Plain [] false (s ++ spaces) := by
        rw [← happend]
        exact Plain.append.mpr ⟨hplain,Plain.spaces h (fun c hc => by cases hc) _⟩
      rw [iniValue,iniValue,find_of_plain hall,hfind,← happend,rstrip_lskip_append_spaces h]
    | cons c rest =>
      have hlonger : iniFindCharsOrComment [] false (s ++ spaces) = (found,c :: (rest ++ spaces)) := by
        rw [← happend,List.append_assoc,List.cons_append]
        exact find_of_plain_append hplain (find_stopped hfind) _
      rw [iniValue,iniValue,hlonger,hfind]

theorem iniValue_rstrip (s : Text) : iniValue (iniRstrip s) = iniValue s := by
  obtain ⟨spaces,hspaces,heq⟩ := rstrip_split s
  conv_rhs => rw [heq]
  rw [iniValue_append_spaces hspaces]

/-- A value is found between spaces, and before a comment. -/
theorem iniValue_padded {value : Text} {after : Padding} (hplain : Plain [] false (after.text ++ value))
    (htrimmed : Trimmed value) (tail : Tail) : iniValue (after.text ++ (value ++ tail.render)) = value := by
  have hpadded : Plain [] false (after.text ++ value ++ tail.padding.text) :=
    Plain.append.mpr ⟨hplain,Plain.spaces tail.padding.space (fun c hc => by cases hc) _⟩
  have hfound : (iniFindCharsOrComment [] false (after.text ++ (value ++ tail.render))).1 =
      after.text ++ value ++ tail.padding.text := by
    unfold Tail.render
    split
    · rw [← List.append_assoc,find_of_plain hpadded]
    · rename_i text hremark
      have hspace : spaceAfter false (after.text ++ value ++ tail.padding.text) = true := by
        rw [spaceAfter_append]
        refine spaceAfter_allSpace tail.padding.space (tail.apart ?_) _
        rw [hremark]
        exact Option.some_ne_none text
      have hsplit : after.text ++ (value ++ (tail.padding.text ++ numberSign :: text)) =
          after.text ++ value ++ tail.padding.text ++ numberSign :: text := by
        simp only [List.append_assoc]
      rw [hsplit,find_of_plain_append hpadded (.inr ⟨hspace,rfl⟩)]
  rw [iniValue,hfound,rstrip_lskip_append_spaces tail.padding.space,lskip_append_spaces after.space,
    lskip_of_first htrimmed.first,rstrip_of_last htrimmed.last]

theorem mem_head_append {s t : Text} {c : UInt8} (hs : s ≠ []) (hc : c ∈ (s ++ t).head?) : c ∈ s.head? := by
  cases s with
  | nil => exact absurd rfl hs
  | cons d s => exact hc

theorem lskip_append_of_trimmed {s : Text} (hs : s ≠ []) (h : ∀ c ∈ s.head?, isSpace c = false) (t : Text) :
    iniLskip (s ++ t) = s ++ t :=
  lskip_of_first fun c hc => h c (mem_head_append hs hc)

theorem iniParseLine_of_start {p : Parser} {line body start : Text} (hbody : unmarked p line = body)
    (hmargin : iniLskip body = body) (hstart : iniRstrip body = start) (hne : start ≠ [])
    (hcomment : start.head? ≠ some numberSign) (hfree : line = body ∨ p.prevName = []) :
    iniParseLine p line = if start.head? = some openBracket then iniParseSection p start else iniParsePair p start := by
  have hcontinued : ¬(p.prevName ≠ [] ∧ body.length < line.length) := by
    rintro ⟨hprev,hshorter⟩
    rcases hfree with hline | hnil
    · exact absurd hshorter (by rw [hline]; exact Nat.lt_irrefl _)
    · exact hprev hnil
  unfold iniParseLine
  dsimp only
  rw [hbody,hmargin,hstart,if_neg (not_or_intro hne hcomment),if_neg hcontinued]

theorem iniParsePair_setting (p : Parser) (s : Setting) (ending : Text) (h : AllSpace ending) :
    iniParsePair p (s.name ++ s.before.text ++ s.separator :: iniRstrip (s.after.text ++ (s.value ++ s.tail.render) ++ ending)) =
      ((Item.setting s).names p,(Item.setting s).line p) := by
  have hchars : ∀ c ∈ [equalsSign,colon], isSpace c = false :=
    List.forall_mem_cons.mpr ⟨rfl,List.forall_mem_singleton.mpr rfl⟩
  have hplain : Plain [equalsSign,colon] false (s.name ++ s.before.text) :=
    Plain.append.mpr ⟨s.nameText.plain,Plain.spaces s.before.space hchars _⟩
  have hseparator : s.separator ∈ [equalsSign,colon] := by
    rcases s.isSeparator with heq | heq <;> simp [heq]
  have hname : iniRstrip (s.name ++ s.before.text) = s.name := by
    rw [rstrip_append_spaces s.before.space,rstrip_of_last s.name_trimmed.last]
  have hvalue : iniValue (iniRstrip (s.after.text ++ (s.value ++ s.tail.render) ++ ending)) = s.value := by
    rw [iniValue_rstrip,iniValue_append_spaces h,iniValue_padded s.value_plain s.value_trimmed]
  unfold iniParsePair
  rw [find_of_plain_append hplain (.inl hseparator)]
  dsimp only
  rw [if_pos s.isSeparator,hname,hvalue]
  rfl

theorem iniParseSection_header (p : Parser) (h : Header) (rest : Text) :
    iniParseSection p (openBracket :: (h.name ++ closeBracket :: rest)) =
      ((Item.header h).names p,(Item.header h).line p) := by
  unfold iniParseSection
  rw [List.tail_cons,find_of_plain_append h.name_plain (.inl List.mem_cons_self)]
  rfl

theorem iniParseLine_item {p : Parser} {item : Item} {line ending : Text} (hending : AllSpace ending)
    (hbody : unmarked p line = item.render ++ ending) (hfree : line = item.render ++ ending ∨ p.prevName = [])
    (hplaced : ∀ c, item = .continuation c → p.prevName ≠ []) : iniParseLine p line = (item.names p,item.line p) := by
  cases item with
  | blank padding =>
    have hspace : AllSpace (padding.text ++ ending) := padding.space.append hending
    unfold iniParseLine
    dsimp only
    rw [hbody,Item.render,lskip_allSpace hspace]
    exact if_pos (.inl rfl)
  | comment indent text htext =>
    have hbody : unmarked p line = indent.text ++ numberSign :: (text ++ ending) := by
      rw [hbody,Item.render,List.append_assoc,List.cons_append]
    have hskip : iniLskip (numberSign :: (text ++ ending)) = numberSign :: (text ++ ending) :=
      lskip_of_first fun c hc => by cases hc; rfl
    have hstrip : iniRstrip (numberSign :: (text ++ ending)) = numberSign :: iniRstrip (text ++ ending) :=
      rstrip_append_cons (s := []) rfl _
    unfold iniParseLine
    dsimp only
    rw [hbody,lskip_append_spaces indent.space,hskip,hstrip]
    exact if_pos (.inr rfl)
  | header h =>
    have hrender : (Item.header h).render ++ ending = openBracket :: (h.name ++ closeBracket :: (h.rest ++ ending)) := by
      simp only [Item.render,List.cons_append,List.append_assoc]
    rw [hrender] at hbody hfree
    have hmargin : iniLskip (openBracket :: (h.name ++ closeBracket :: (h.rest ++ ending))) =
        openBracket :: (h.name ++ closeBracket :: (h.rest ++ ending)) := lskip_of_first fun c hc => by cases hc; rfl
    have hstart : iniRstrip (openBracket :: (h.name ++ closeBracket :: (h.rest ++ ending))) =
        openBracket :: (h.name ++ closeBracket :: iniRstrip (h.rest ++ ending)) :=
      rstrip_append_cons (s := openBracket :: h.name) rfl _
    have hcomment : some openBracket ≠ some numberSign := by decide
    rw [iniParseLine_of_start hbody hmargin hstart (List.cons_ne_nil _ _) hcomment hfree]
    exact (if_pos rfl).trans (iniParseSection_header p h _)
  | setting s =>
    have hrender : (Item.setting s).render ++ ending =
        s.name ++ s.before.text ++ s.separator :: (s.after.text ++ (s.value ++ s.tail.render) ++ ending) := by
      simp only [Item.render,List.cons_append,List.append_assoc]
    rw [hrender] at hbody hfree
    have hseparator : isSpace s.separator = false := by
      rcases s.isSeparator with heq | heq <;> rw [heq] <;> rfl
    have hmargin : iniLskip (s.name ++ s.before.text ++ s.separator :: (s.after.text ++ (s.value ++ s.tail.render) ++ ending)) =
        s.name ++ s.before.text ++ s.separator :: (s.after.text ++ (s.value ++ s.tail.render) ++ ending) := by
      rw [List.append_assoc]
      exact lskip_append_of_trimmed s.name_ne_nil s.name_trimmed.first _
    have hhead : ∀ c ∈ (s.name ++ s.before.text ++
        s.separator :: iniRstrip (s.after.text ++ (s.value ++ s.tail.render) ++ ending)).head?,
        c ≠ numberSign ∧ c ≠ openBracket := by
      intro c hc
      rw [List.append_assoc] at hc
      exact (s.nameText.first c (mem_head_append s.name_ne_nil hc)).2
    rw [iniParseLine_of_start hbody hmargin (rstrip_append_cons hseparator _ _) (by simp)
      (fun hc => (hhead _ hc).1 rfl) hfree]
    exact (if_neg fun hc => (hhead _ hc).2 rfl).trans (iniParsePair_setting p s ending hending)
  | continuation c =>
    have hprev : p.prevName ≠ [] := hplaced c rfl
    have hline : line = c.indent.text ++ (c.value ++ c.tail.render ++ ending) := by
      rcases hfree with hline | hnil
      · rw [hline,Item.render]
        simp only [List.append_assoc]
      · exact absurd hnil hprev
    have hbody : unmarked p line = c.indent.text ++ (c.value ++ c.tail.render ++ ending) := by
      rw [hbody,Item.render]
      simp only [List.append_assoc]
    have hskip : iniLskip (c.value ++ c.tail.render ++ ending) = c.value ++ c.tail.render ++ ending := by
      rw [List.append_assoc]
      exact lskip_append_of_trimmed c.value_ne_nil c.value_trimmed.first _
    have hshorter : (c.value ++ c.tail.render ++ ending).length < line.length := by
      have hindent := List.length_pos_of_ne_nil c.indented
      rw [hline]
      simp only [List.length_append]
      omega
    -- the first character of the value ends up in front of the stripped line
    obtain ⟨d,value,hvalue⟩ := List.exists_cons_of_ne_nil c.value_ne_nil
    have hspace : isSpace d = false := c.value_trimmed.first d (by rw [hvalue]; rfl)
    have hstrip : iniRstrip (c.value ++ c.tail.render ++ ending) = d :: iniRstrip (value ++ c.tail.render ++ ending) := by
      rw [hvalue]
      exact rstrip_append_cons (s := []) hspace _
    have hcomment : d ≠ numberSign := by
      have hplain := c.value_plain
      rw [hvalue] at hplain
      exact fun heq => hplain.2.1 ⟨rfl,heq⟩
    have hfirst : iniLskip (iniFindCharsOrComment [] false (iniRstrip (c.value ++ c.tail.render ++ ending))).1 =
        (iniFindCharsOrComment [] false (iniRstrip (c.value ++ c.tail.render ++ ending))).1 := by
      apply lskip_of_first
      intro e he
      have hmem := head_of_start (find_fst_start [] false _) he
      rw [hstrip] at hmem
      cases hmem
      exact hspace
    have hfound : iniRstrip (iniFindCharsOrComment [] false (iniRstrip (c.value ++ c.tail.render ++ ending))).1 = c.value := by
      have hread : iniValue (iniRstrip (c.value ++ c.tail.render ++ ending)) = c.value := by
        rw [iniValue_rstrip,iniValue_append_spaces hending]
        have hplain : Plain [] false (Padding.none.text ++ c.value) := c.value_plain.weaken false
        exact iniValue_padded hplain c.value_trimmed c.tail
      rwa [iniValue,hfirst] at hread
    unfold iniParseLine
    dsimp only
    rw [hbody,lskip_append_spaces c.indent.space,hskip,if_neg (by rw [hstrip]; simp [hcomment]),if_pos ⟨hprev,hshorter⟩,hfound]
    rfl

theorem iniCalls_item {p : Parser} (hp : p.error = 0) {item : Item} {line ending : Text} {stream rest : Stream}
    (hread : fgets iniMaxLine stream = some (line,rest)) (hterminator : 0 ∉ line) (hfits : overlong line = false)
    (hending : AllSpace ending) (hbody : unmarked { p with lineno := p.lineno + 1 } line = item.render ++ ending)
    (hfree : line = item.render ++ ending ∨ p.prevName = []) (hplaced : ∀ c, item = .continuation c → p.prevName ≠ []) :
    iniCalls p stream = ((iniCalls (item.names { p with lineno := p.lineno + 1 }) rest).1,
      (item.names { p with lineno := p.lineno + 1 }).calls (item.line { p with lineno := p.lineno + 1 }) ++
        (iniCalls (item.names { p with lineno := p.lineno + 1 }) rest).2) := by
  have hstring : cString line = line := cString_of_noTerminator hterminator
  have hnext : iniNextLine p (cString line) rest = ({ p with lineno := p.lineno + 1 },rest) := by
    rw [hstring,iniNextLine,hfits,if_neg Bool.false_ne_true]
  have hparsed : iniParseLine { p with lineno := p.lineno + 1 } (cString line) =
      (item.names { p with lineno := p.lineno + 1 },item.line { p with lineno := p.lineno + 1 }) := by
    rw [hstring]
    exact iniParseLine_item hending hbody hfree hplaced
  have hsettled : (item.names { p with lineno := p.lineno + 1 }).settled (item.line { p with lineno := p.lineno + 1 }) =
      item.names { p with lineno := p.lineno + 1 } := by
    cases item <;> rfl
  have herror : (item.names { p with lineno := p.lineno + 1 }).error = 0 := by
    cases item <;> exact hp
  rw [iniCalls_some p hread hnext.symm hparsed.symm,hsettled,if_neg (not_not.mpr herror)]

theorem overlong_terminated (line : Text) : overlong (line ++ [newline]) = false := by
  simp [overlong]

theorem overlong_short {line : Text} (h : line.length + 1 < iniMaxLine) : overlong line = false := by
  have hne : line.length ≠ iniMaxLine - 1 := by omega
  simp [overlong,hne]

theorem iniCalls_end (p : Parser) : iniCalls p ⟨[],false⟩ = ({ p with readFailed := false },[]) := iniCalls_none p rfl

theorem placed_names {p : Parser} {item : Item} {items : List Item} (h : Placed (p.prevName ≠ []) (item :: items)) :
    (∀ c, item = .continuation c → p.prevName ≠ []) ∧ Placed ((item.names p).prevName ≠ []) items := by
  refine ⟨?_,?_⟩
  · rintro c rfl
    exact of_decide_eq_true h.1
  · cases item with
    | blank => exact h
    | comment => exact h
    | header => exact h
    | setting s =>
      have hne : iniStrncpy0 iniMaxName s.name ≠ [] := by
        rw [iniStrncpy0,Ne,List.take_eq_nil_iff,not_or]
        exact ⟨by decide,s.name_ne_nil⟩
      have hnamed : decide (((Item.setting s).names p).prevName ≠ []) = true := decide_eq_true hne
      rw [hnamed]
      exact h
    | continuation => exact h.2

theorem allSpace_newline : AllSpace [newline] := by
  intro c hc
  rw [List.mem_singleton.mp hc]
  rfl

theorem unmarked_line {p : Parser} {mark whole line : Text}
    (hmark : (p.lineno = 0 ∧ p.prevName = [] ∧ mark = byteOrderMark) ∨
      (mark = [] ∧ (p.lineno = 0 → ¬byteOrderMark <+: whole))) (hline : line <+: whole) :
    unmarked { p with lineno := p.lineno + 1 } (mark ++ line) = line := by
  unfold unmarked
  rcases hmark with ⟨hzero,-,rfl⟩ | ⟨rfl,hwhole⟩
  · rw [if_pos ⟨congrArg (· + 1) hzero,List.prefix_append _ _⟩,List.drop_left]
  · rw [List.nil_append,if_neg]
    rintro ⟨hone,hbegins⟩
    exact hwhole (Nat.succ_injective hone) (hbegins.trans hline)

theorem newline_mark {p : Parser} {mark whole : Text}
    (hmark : (p.lineno = 0 ∧ p.prevName = [] ∧ mark = byteOrderMark) ∨
      (mark = [] ∧ (p.lineno = 0 → ¬byteOrderMark <+: whole))) : Inline mark ∧ (mark = [] ∨ p.prevName = []) := by
  rcases hmark with ⟨-,hprev,rfl⟩ | ⟨rfl,-⟩
  · exact ⟨⟨by decide,by decide⟩,.inr hprev⟩
  · exact ⟨⟨List.not_mem_nil,List.not_mem_nil⟩,.inl rfl⟩

/-- The whole stream was read without an error, and asked for these calls. -/
structure Reads (result : Parser × List Call) (calls : List Call) : Prop where
  error : result.1.error = 0
  readFailed : result.1.readFailed = false
  calls_eq : result.2 = calls

theorem reads_end {p : Parser} (h : p.error = 0) : Reads (iniCalls p ⟨[],false⟩) [] := by
  rw [iniCalls_end]
  exact ⟨h,rfl,rfl⟩

theorem Reads.after {result : Parser × List Call} {calls : List Call} (h : Reads result calls) (first : List Call) :
    Reads (result.1,first ++ result.2) (first ++ calls) :=
  ⟨h.error,h.readFailed,by rw [h.calls_eq]⟩

theorem iniCalls_renderItems {terminated : Bool} {items : List Item} {p : Parser} {mark : Text} (hp : p.error = 0)
    (hmark : (p.lineno = 0 ∧ p.prevName = [] ∧ mark = byteOrderMark) ∨
      (mark = [] ∧ (p.lineno = 0 → ¬byteOrderMark <+: renderItems terminated items)))
    (hplaced : Placed (p.prevName ≠ []) items) (hfits : ∀ item ∈ items, item.Fits)
    (hfirst : ∀ item ∈ items.head?, mark.length + item.render.length + 1 < iniMaxLine) :
    Reads (iniCalls p ⟨mark ++ renderItems terminated items,false⟩) (itemCalls p items) := by
  obtain ⟨hinline,hfree⟩ := newline_mark hmark
  induction items generalizing p mark with
  | nil =>
    -- a file of the mark alone is a blank line
    by_cases hnil : mark = []
    · rw [hnil,renderItems,List.append_nil]
      exact reads_end hp
    · have hshort : mark.length + 1 < iniMaxLine := by
        rcases hmark with ⟨-,-,rfl⟩ | ⟨rfl,-⟩ <;> decide
      have hread : fgets iniMaxLine ⟨mark ++ renderItems terminated [],false⟩ = some (mark,⟨[],false⟩) := by
        rw [renderItems,List.append_nil]
        exact fgets_all hnil hinline.noNewline (Nat.lt_of_succ_lt hshort)
      have hbody : unmarked { p with lineno := p.lineno + 1 } mark = (Item.blank Padding.none).render ++ [] := by
        have hline := unmarked_line hmark List.nil_prefix
        rwa [List.append_nil] at hline
      rw [iniCalls_item hp hread hinline.noTerminator (overlong_short hshort) allSpace_nil hbody
        (.inr (hfree.resolve_left hnil)) (fun c hc => by cases hc)]
      exact (reads_end (p := (Item.blank Padding.none).names { p with lineno := p.lineno + 1 }) hp).after []
  | cons item items ih =>
    obtain ⟨hcontinuation,hplaced⟩ := placed_names (p := { p with lineno := p.lineno + 1 }) hplaced
    have hlength : (mark ++ item.render).length + 1 < iniMaxLine := by
      rw [List.length_append]
      exact hfirst item rfl
    have hnewline : newline ∉ mark ++ item.render := (inline_append.mpr ⟨hinline,item.render_inline⟩).noNewline
    have hterminator : 0 ∉ mark ++ item.render := (inline_append.mpr ⟨hinline,item.render_inline⟩).noTerminator
    have herror : (item.names { p with lineno := p.lineno + 1 }).error = 0 := by
      cases item <;> exact hp
    have hnumber : (item.names { p with lineno := p.lineno + 1 }).lineno ≠ 0 := by
      cases item <;> exact Nat.succ_ne_zero _
    -- an item with its newline, and what follows it
    have hterminated {rest : Text} (hwhole : renderItems terminated (item :: items) = item.render ++ newline :: rest) :
        iniCalls p ⟨mark ++ renderItems terminated (item :: items),false⟩ =
          ((iniCalls (item.names { p with lineno := p.lineno + 1 }) ⟨rest,false⟩).1,
            (item.names { p with lineno := p.lineno + 1 }).calls (item.line { p with lineno := p.lineno + 1 }) ++
              (iniCalls (item.names { p with lineno := p.lineno + 1 }) ⟨rest,false⟩).2) := by
      have hread : fgets iniMaxLine ⟨mark ++ renderItems terminated (item :: items),false⟩ =
          some (mark ++ item.render ++ [newline],⟨rest,false⟩) := by
        rw [hwhole,← List.append_assoc]
        exact fgets_line hnewline hlength rest false
      have hbody : unmarked { p with lineno := p.lineno + 1 } (mark ++ item.render ++ [newline]) = item.render ++ [newline] := by
        rw [List.append_assoc]
        refine unmarked_line hmark ?_
        rw [hwhole]
        exact ⟨rest,by rw [List.append_assoc,List.singleton_append]⟩
      refine iniCalls_item hp hread ?_ (overlong_terminated _) allSpace_newline hbody ?_ hcontinuation
      · intro hmem
        exact (List.mem_append.mp hmem).elim hterminator (by decide)
      · rcases hfree with rfl | hprev
        · exact .inl rfl
        · exact .inr hprev
    have hrest : Reads (iniCalls (item.names { p with lineno := p.lineno + 1 }) ⟨renderItems terminated items,false⟩)
        (itemCalls (item.names { p with lineno := p.lineno + 1 }) items) := by
      have hnone : Inline [] := ⟨List.not_mem_nil,List.not_mem_nil⟩
      have hfirst : ∀ item ∈ items.head?, ([] : Text).length + item.render.length + 1 < iniMaxLine := by
        intro item hitem
        have hfit := hfits item (List.mem_cons_of_mem _ (List.mem_of_mem_head? hitem))
        rw [Item.Fits] at hfit
        rwa [List.length_nil,Nat.zero_add]
      have hinduction := ih herror (.inr ⟨rfl,fun hzero => absurd hzero hnumber⟩) hplaced
        (fun item hitem => hfits item (List.mem_cons_of_mem _ hitem)) hfirst hnone (.inl rfl)
      rwa [List.nil_append] at hinduction
    cases items with
    | cons next items =>
      rw [hterminated rfl]
      exact hrest.after _
    | nil =>
      cases terminated with
      | true =>
        rw [hterminated rfl]
        exact (reads_end herror).after _
      | false =>
        have hwhole : renderItems false [item] = item.render := List.append_nil _
        rw [hwhole]
        by_cases hnil : mark ++ item.render = []
        · -- an empty line without a newline is not read at all
          rw [hnil]
          obtain ⟨-,hnone⟩ := List.append_eq_nil_iff.mp hnil
          cases item with
          | blank => exact reads_end hp
          | comment indent text htext => simp [Item.render] at hnone
          | header h => simp [Item.render] at hnone
          | setting s => simp [Item.render] at hnone
          | continuation c => simp [Item.render,c.value_ne_nil] at hnone
        · have hread : fgets iniMaxLine ⟨mark ++ item.render,false⟩ = some (mark ++ item.render,⟨[],false⟩) :=
            fgets_all hnil hnewline (Nat.lt_of_succ_lt hlength)
          have hbody : unmarked { p with lineno := p.lineno + 1 } (mark ++ item.render) = item.render ++ [] := by
            rw [List.append_nil]
            exact unmarked_line hmark (by rw [hwhole])
          have hline : mark ++ item.render = item.render ++ [] ∨ p.prevName = [] := by
            rcases hfree with rfl | hprev
            · exact .inl (List.append_nil _).symm
            · exact .inr hprev
          rw [iniCalls_item hp hread hterminator (overlong_short hlength) allSpace_nil hbody hline hcontinuation]
          exact (reads_end herror).after _

theorem reads_document (d : Document) : Reads (iniCalls {} ⟨d.render,false⟩) d.calls := by
  refine iniCalls_renderItems rfl ?_ d.placed d.fits ?_
  · cases hmarked : d.marked with
    | true => exact .inl ⟨rfl,rfl,rfl⟩
    | false => exact .inr ⟨rfl,fun _ => d.unmarked hmarked⟩
  · intro item hitem
    cases hmarked : d.marked with
    | true => exact d.fits_marked hmarked item hitem
    | false =>
      have hfit := d.fits item (List.mem_of_mem_head? hitem)
      rw [Item.Fits] at hfit
      rwa [if_neg Bool.false_ne_true,List.length_nil,Nat.zero_add]

end Precizer.Settings

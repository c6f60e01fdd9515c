import Precizer.Logger.PrintedLine

/-! # Machine lines

A path is shown sanitized and without markers, and neither step is itself escaped. So the same
line is printed for a path and for that path with a marker after it; the line of an outcome is
`action [details] path`, and with it the path, exactly when a terminal displays the path as it is
and it contains neither a newline nor a marker.
-/
namespace Precizer.Guarantees
open General Traversal Database Logger

/-- File names joined to a path: not empty, without null bytes, and with room in a log line. -/
structure FilePath (path : RelativePath) : Prop where
  nonempty : path ≠ []
  plain : (0 : Byte) ∉ path
  fits : FitsLine path

/-- The text is one line of the form `action [details] path` with this path. -/
def PrintedAs (text : List Byte) (path : RelativePath) : Prop :=
  ∃ action ∈ machineActions, ∃ details, 93 ∉ details ∧ newline ∉ details ∧ newline ∉ path ∧
    text = machineLine action details path

/-- Both paths are printed as their own lines, and these are different. -/
structure Distinguished (text : RelativePath → List Byte) (path other : RelativePath) : Prop where
  own : PrintedAs (text path) path
  others : PrintedAs (text other) other
  distinct : text other ≠ text path

/-- A terminal displays the path as it is and on one line, and it contains no marker. -/
structure Verbatim (path : RelativePath) : Prop where
  displayed : DisplayText path
  oneLine : newline ∉ path
  unmarked : MarkerFree path

/-- There is something to say about the file besides an interrupted hashing. -/
def outcomeReported (c : Config) (file : File) : Bool :=
  if file.ignore then !c.quietIgnored
  else if file.readError || !file.isReadable then true
  else if !file.db.relativePathWasInDbBeforeProcessing then
    file.newDbRecordInserted && !(file.included && c.quietIgnored)
  else if file.lockedChecksumMismatch || file.lockChecksumViolation then true
  else if file.dbRecordUpdated && file.included then !c.quietIgnored
  else if file.dbRecordUpdated && file.zeroSizeFile then true
  else if file.rehash then
    if !file.rehashingFromTheBeginning && decide (0 < file.db.savedOffset) then true
    else !file.hashInterrupted && (file.rehashingFromTheBeginning || file.lockedChecksumFile || file.dbRecordUpdated)
  else file.dbRecordUpdated

def OneOutcome (c : Config) (file : File) : Prop := outcomeReported c file ≠ file.hashInterrupted

theorem mainLabel_length (c : Config) (file : File) :
    (mainLabel c file).length = if outcomeReported c file then 1 else 0 := by
  unfold mainLabel outcomeReported
  cases file.ignore with
  | true => cases c.quietIgnored <;> cases file.db.relativePathWasInDbBeforeProcessing <;> rfl
  | false =>
    simp only [Bool.false_eq_true,↓reduceIte]
    cases file.readError with
    | true => rfl
    | false =>
      cases file.isReadable with
      | false => rfl
      | true =>
        cases file.db.relativePathWasInDbBeforeProcessing with
        | false =>
          cases file.newDbRecordInserted <;> cases file.included <;> cases c.quietIgnored <;>
            cases file.lockedChecksumFile <;> cases file.zeroSizeFile <;> rfl
        | true =>
          cases file.lockedChecksumMismatch with
          | true => rfl
          | false =>
            cases file.lockChecksumViolation with
            | true => rfl
            | false =>
              cases file.rehash with
              | false =>
                cases file.dbRecordUpdated <;> cases file.included <;> cases file.zeroSizeFile <;>
                  cases c.quietIgnored <;> rfl
              | true =>
                cases file.dbRecordUpdated <;> cases file.included <;> cases file.zeroSizeFile <;>
                  cases c.quietIgnored <;> cases file.rehashingFromTheBeginning <;>
                    cases file.lockedChecksumFile <;> cases file.hashInterrupted <;>
                      rcases Nat.eq_zero_or_pos file.db.savedOffset with hsaved | hsaved <;> simp [hsaved]

theorem showFile_length (c : Config) (file : File) : (showFile c file).length = 1 ↔ OneOutcome c file := by
  unfold OneOutcome
  rw [showFile,List.length_append,mainLabel_length]
  cases outcomeReported c file <;> cases file.hashInterrupted <;> simp

section Heads

variable (t : Texts) (verbose : Bool) (was now : CmpctStat)

theorem color_marker {color : String} (h : color ∈ ["gray","red","orange","boldgreen","green","blue","yellow"]) :
    ∃ rule ∈ decorations, rule.1 = marker color := by
  have hall : ∀ color ∈ ["gray","red","orange","boldgreen","green","blue","yellow"],
      ∃ rule ∈ decorations, rule.1 = marker color := by decide +kernel
  exact hall color h

theorem marker_ascii {rule : List Byte × List Byte} (h : rule ∈ decorations) :
    ∀ b ∈ rule.1, b.toNat < 0x80 ∧ controlByte b = false := by
  intro b hb
  obtain ⟨hlow,hhigh⟩ := (decorations_rule rule h).printable b hb
  exact ⟨by omega,(controlByte_eq_false (by omega)).mpr (.inr (.inr (.inr ⟨by omega,by omega⟩)))⟩

/-- Empty, or starting with an escape byte. -/
def Colored (text : List Byte) : Prop := text = [] ∨ ∃ rest, text = escByte :: rest

theorem Colored.append {a b : List Byte} (ha : Colored a) (hb : Colored b) : Colored (a ++ b) := by
  rcases ha with rfl | ⟨rest,rfl⟩
  · exact hb
  · exact .inr ⟨rest ++ b,rfl⟩

/-- With styling a call whose payload starts with a marker prints an escape byte first. -/
theorem slog_colored {level : LogModes} (hlevel : level.machine = true) (hundecor : level.undecor = true)
    (callback : Bool) {rule : List Byte × List Byte} (hrule : rule ∈ decorations) (payload : List Byte) :
    Colored (slog true callback level (rule.1 ++ payload)) := by
  rw [slog_eq hlevel hundecor]
  split
  · rcases writeLine_terminal .available true (level.remember && callback) (sanitized (rule.1 ++ payload)) with h | h
    · exact .inl h
    · rw [sanitized_ascii_append (marker_ascii hrule)] at h ⊢
      obtain ⟨rest,hrest⟩ := styled_marker (List.Subset.refl _) hrule (sanitized payload)
      exact .inr ⟨rest,h.trans hrest⟩
  · exact .inl rfl

theorem inOneCall_colored {color : String}
    (hcolor : color ∈ ["gray","red","orange","boldgreen","green","blue","yellow"]) (action : String)
    (details : List Byte) (callback : Bool) (path : RelativePath) :
    Colored ((inOneCall color action details).print true callback path) := by
  obtain ⟨rule,hrule,hmarker⟩ := color_marker hcolor
  have hcall := @slog_colored machineLevel rfl rfl callback rule hrule
    (ascii action ++ marker "reset" ++ ascii " [" ++ details ++ ascii "] " ++ path ++ [newline])
  rw [hmarker] at hcall
  simpa [MachineHead.print,inOneCall,actionText] using hcall

theorem changeHeads_colored : ∀ head ∈ changeHeads, ∀ callback,
    (slog true callback machineLevel (actionText head.1 head.2.1 ++ ascii " [" ++ ascii head.2.2)).head? =
      some escByte := by
  decide +kernel

theorem withChanges_colored (level : LogModes) {head : String × String × String} (hhead : head ∈ changeHeads)
    (changes : List (List Byte)) (callback : Bool) (path : RelativePath) :
    Colored ((withChanges level head.1 head.2.1 head.2.2 changes).print true callback path) := by
  obtain ⟨rest,hrest⟩ := List.head?_eq_some_iff.mp (changeHeads_colored head hhead callback)
  rw [MachineHead.print,withChanges,List.flatMap_cons,hrest]
  exact .inr ⟨_,rfl⟩

theorem print_colored (label : FileLabel) (callback : Bool) (path : RelativePath) :
    Colored ((machineHead t verbose was now label).print true callback path) := by
  have hone := fun color hcolor action details =>
    @inOneCall_colored color hcolor action details callback path
  have hseveral := fun level head hhead changes => @withChanges_colored level head hhead changes callback path
  cases label with
  | ignoredNotAdded => exact hone "gray" (by decide) "ignored" _
  | ignoredNotUpdated => exact hone "gray" (by decide) "ignored" _
  | readError errno => exact hone "red" (by decide) "error" _
  | inaccessible => exact hone "orange" (by decide) "inaccessible" _
  | addedAsIncluded => exact hone "boldgreen" (by decide) "added" _
  | lockedChecksum => exact hone "green" (by decide) "locked" _
  | addedAsEmpty => exact hone "green" (by decide) "added" _
  | added => exact hone "green" (by decide) "added" _
  | lockedChecksumMismatch => exact hone "red" (by decide) "critical" _
  | lockedChecksumViolation changes =>
    exact hseveral _ ("red","critical","locked checksum, data corruption detected") (by decide) _
  | updatedAsIncluded changes => exact hseveral _ ("boldgreen","updated","as included") (by decide) _
  | updatedAsEmpty changes => exact hseveral _ ("blue","updated","as empty") (by decide) _
  | rehashedFromTheBeginning changes => exact hseveral _ ("yellow","rehashed","from the beginning") (by decide) _
  | rehashResumed offset => exact hone "yellow" (by decide) "resumed" _
  | lockedChecksumMatched changes => exact hseveral _ ("yellow","rehashed","locked checksum matched") (by decide) _
  | rehashed changes => exact hseveral _ ("yellow","rehashed","") (by decide) _
  | updatedMetadata changes => exact hseveral _ ("blue","updated","metadata") (by decide) _
  | hashingInterrupted offset => exact hone "orange" (by decide) "interrupted" _

end Heads

theorem not_printedAs_of_colored {text : List Byte} (h : Colored text) (path : RelativePath) : ¬ PrintedAs text path := by
  rintro ⟨action,haction,details,-,-,-,htext⟩
  have hwords : ∀ action ∈ machineActions, ascii action ≠ [] ∧ (ascii action).head? ≠ some escByte := by
    decide +kernel
  obtain ⟨hne,hhead⟩ := hwords action haction
  obtain ⟨b,rest,hword⟩ := List.exists_cons_of_ne_nil hne
  rw [machineLine,hword] at htext
  rw [hword] at hhead
  rcases h with rfl | ⟨tail,rfl⟩
  · cases htext
  · exact hhead (congrArg some (List.cons.inj htext).1.symm)

section Printed

theorem machineActions_plain : ∀ action ∈ machineActions, 93 ∉ ascii action ∧ newline ∉ ascii action := by
  decide

/-- A line determines what stands behind its bracket. -/
theorem machineLine_path {action action' : String} (haction : action ∈ machineActions)
    (haction' : action' ∈ machineActions) {details details' path path' : List Byte} (hdetails : 93 ∉ details)
    (hdetails' : 93 ∉ details') (h : machineLine action details path = machineLine action' details' path') :
    path = path' := by
  have hwords : ascii " [" = [32,91] ∧ ascii "] " = [93,32] := by decide
  have hcut : ∀ action details path, machineLine action details path =
      (ascii action ++ [32,91] ++ details) ++ 93 :: (32 :: (path ++ [newline])) := by
    intro action details path
    rw [machineLine,hwords.1,hwords.2]
    simp
  have hinside {action : String} (h : action ∈ machineActions) {details : List Byte} (hd : 93 ∉ details) :
      93 ∉ ascii action ++ [32,91] ++ details := by
    have hword := (machineActions_plain action h).1
    simpa using ⟨hword,hd⟩
  rw [hcut,hcut] at h
  obtain ⟨-,hrest⟩ := append_cons_cut (hinside haction hdetails) (hinside haction' hdetails') h
  exact List.append_cancel_right (List.cons.inj hrest).2

theorem PrintedAs.path_eq {text : List Byte} {path other : RelativePath} (h : PrintedAs text path)
    (h' : PrintedAs text other) : path = other := by
  obtain ⟨action,haction,details,hdetails,-,-,rfl⟩ := h
  obtain ⟨action',haction',details',hdetails',-,-,hsame⟩ := h'
  exact machineLine_path haction haction' hdetails hdetails' hsame

theorem count_machineLine (action : String) (details path : List Byte) :
    1 ≤ (machineLine action details path).count newline := by
  simp only [machineLine,List.count_append,List.count_singleton_self]
  omega

theorem PrintedAs.count {text : List Byte} {path : RelativePath} (h : PrintedAs text path) : text.count newline = 1 := by
  obtain ⟨action,haction,details,-,hdetails,hpath,rfl⟩ := h
  have hwords : (ascii " [").count newline = 0 ∧ (ascii "] ").count newline = 0 := by decide
  have haction := List.count_eq_zero.mpr (machineActions_plain action haction).2
  simp only [machineLine,List.count_append,haction,hwords,List.count_eq_zero.mpr hdetails,
    List.count_eq_zero.mpr hpath,List.count_singleton_self,Nat.zero_add,Nat.add_zero]

variable {t : Texts} (ht : t.Plain) (verbose callback : Bool) (c : Config) (file : File) {path : RelativePath}
  (hpath : FitsLine path)
include ht hpath

theorem showFileText_plain : showFileText t verbose false callback c file path =
    (showFile c file).flatMap fun label =>
      machineLine (machineAction label) (machineDetails t verbose file.db.savedStat file.stat label) (shown path) :=
  List.flatMap_congr fun label _ => (print_machineLine ht verbose callback _ _ label).2 path hpath

/-- Without styling a path is printed as its own line exactly when one outcome is reported and it
is shown as it is. -/
theorem printedAs_plain :
    PrintedAs (showFileText t verbose false callback c file path) path ↔ OneOutcome c file ∧ Verbatim path := by
  rw [showFileText_plain ht verbose callback c file hpath,← showFile_length]
  constructor
  · intro hprinted
    have hcount : ∀ labels : List FileLabel, labels.length ≤ (labels.flatMap fun label =>
        machineLine (machineAction label) (machineDetails t verbose file.db.savedStat file.stat label)
          (shown path)).count newline := by
      intro labels
      induction labels with
      | nil => exact Nat.zero_le _
      | cons label labels ih =>
        have hone := count_machineLine (machineAction label)
          (machineDetails t verbose file.db.savedStat file.stat label) (shown path)
        rw [List.flatMap_cons,List.count_append,List.length_cons]
        omega
    have hle := hcount (showFile c file)
    rw [hprinted.count] at hle
    cases hlabels : showFile c file with
    | nil =>
      have hlines := hprinted.count
      rw [hlabels] at hlines
      cases hlines
    | cons label labels =>
      rw [hlabels,List.length_cons] at hle
      have hnone : labels = [] := List.length_eq_zero_iff.mp (by omega)
      subst hnone
      rw [hlabels,List.flatMap_singleton] at hprinted
      obtain ⟨action,haction,details,hdetails,-,hline,hsame⟩ := hprinted
      obtain ⟨⟨n,hinside⟩,-⟩ := print_machineLine ht verbose callback file.db.savedStat file.stat label
      have hshown : shown path = path :=
        machineLine_path (machineAction_mem label) haction hinside.inside hdetails hsame
      obtain ⟨hdisplayed,hmarkers⟩ := (shown_eq_self path).mp hshown
      exact ⟨rfl,hdisplayed,hline,hmarkers⟩
  · rintro ⟨hone,hverbatim⟩
    obtain ⟨label,hlabel⟩ := List.length_eq_one_iff.mp hone
    obtain ⟨⟨n,hinside⟩,-⟩ := print_machineLine ht verbose callback file.db.savedStat file.stat label
    have hshown : shown path = path := (shown_eq_self path).mpr ⟨hverbatim.displayed,hverbatim.unmarked⟩
    rw [hlabel,List.flatMap_singleton,hshown]
    exact ⟨_,machineAction_mem label,_,hinside.inside,hinside.oneLine,hverbatim.oneLine,rfl⟩

end Printed

theorem not_printedAs_styled (t : Texts) (verbose callback : Bool) (c : Config) (file : File) (path : RelativePath) :
    ¬ PrintedAs (showFileText t verbose true callback c file path) path := by
  refine not_printedAs_of_colored ?_ path
  unfold showFileText
  induction showFile c file with
  | nil => exact .inl rfl
  | cons label labels ih =>
    rw [List.flatMap_cons]
    exact (print_colored t verbose _ _ label callback path).append ih

/-- A path is printed as one line that ends with it exactly when the output is not styled, one
outcome is reported, and the path is displayed as it is, on one line and without a marker. Two
different paths are printed as two different lines of their own exactly when both are such. -/
theorem machine_lines {t : Texts} (ht : t.Plain) (verbose stylesEnabled callback : Bool) (c : Config) (file : File)
    {path : RelativePath} (hpath : FilePath path) :
    (PrintedAs (showFileText t verbose stylesEnabled callback c file path) path ↔
      stylesEnabled = false ∧ OneOutcome c file ∧ Verbatim path) ∧
    ∀ other, FilePath other → other ≠ path →
      (Distinguished (showFileText t verbose stylesEnabled callback c file) path other ↔
        stylesEnabled = false ∧ OneOutcome c file ∧ Verbatim path ∧ Verbatim other) := by
  have hprinted : ∀ {p}, FilePath p → (PrintedAs (showFileText t verbose stylesEnabled callback c file p) p ↔
      stylesEnabled = false ∧ OneOutcome c file ∧ Verbatim p) := by
    intro p hp
    cases stylesEnabled with
    | true => simpa using not_printedAs_styled t verbose callback c file p
    | false => simpa using printedAs_plain ht verbose callback c file hp.fits
  refine ⟨hprinted hpath,fun other hother hne => ?_⟩
  constructor
  · intro h
    obtain ⟨hplain,hone,hverbatim⟩ := (hprinted hpath).mp h.own
    exact ⟨hplain,hone,hverbatim,((hprinted hother).mp h.others).2.2⟩
  · rintro ⟨hplain,hone,hverbatim,hverbatim'⟩
    have hown := (hprinted hpath).mpr ⟨hplain,hone,hverbatim⟩
    have hothers := (hprinted hother).mpr ⟨hplain,hone,hverbatim'⟩
    exact ⟨hown,hothers,fun hsame => hne ((hsame ▸ hothers).path_eq hown)⟩

def sampleTexts : Texts where
  bkbmbgbtbpbeb := fun _ => ascii "1KiB"
  secondsToISOdate := fun _ => ascii "2026-01-01 00:00:00"
  strerror := fun _ => ascii "Input/output error"

def addedFile : File := { db := DBrow.zero,isReadable := true,newDbRecordInserted := true }

theorem sampleTexts_plain : sampleTexts.Plain := by
  have hsize : DetailText 1024 (ascii "1KiB") := .ofBytes (by decide) (by decide)
  have hdate : DetailText 1024 (ascii "2026-01-01 00:00:00") := .ofBytes (by decide) (by decide)
  have herror : DetailText 1024 (ascii "Input/output error") := .ofBytes (by decide) (by decide)
  exact ⟨fun _ => hsize,fun _ => hdate,fun _ => herror⟩

theorem filePath_short {path : RelativePath} (hne : path ≠ []) (hplain : (0 : Byte) ∉ path)
    (hlength : (sanitized path).length ≤ 100) : FilePath path := by
  refine ⟨hne,hplain,?_⟩
  unfold FitsLine intMax
  omega

theorem machine_lines_added : sampleTexts.Plain ∧ FilePath (ascii "a") ∧ FilePath (ascii "b") ∧
    Distinguished (showFileText sampleTexts false false false {} addedFile) (ascii "a") (ascii "b") := by
  have ha : FilePath (ascii "a") := filePath_short (by decide) (by decide) (by decide +kernel)
  have hb : FilePath (ascii "b") := filePath_short (by decide) (by decide) (by decide +kernel)
  have hverbatim : Verbatim (ascii "a") ∧ Verbatim (ascii "b") :=
    ⟨⟨.ascii (by decide +kernel),by decide,by unfold MarkerFree; decide +kernel⟩,
      ⟨.ascii (by decide +kernel),by decide,by unfold MarkerFree; decide +kernel⟩⟩
  have hone : OneOutcome {} addedFile := by
    unfold OneOutcome
    decide
  exact ⟨sampleTexts_plain,ha,hb,((machine_lines sampleTexts_plain false false false {} addedFile ha).2
    (ascii "b") hb (by decide)).mpr ⟨rfl,hone,hverbatim.1,hverbatim.2⟩⟩

/-- `a` and `a@{reset}` are different names of files and printed as the same line. -/
theorem same_line : FilePath (ascii "a") ∧ FilePath (ascii "a@\x7breset\x7d") ∧
    ascii "a" ≠ ascii "a@\x7breset\x7d" ∧
    showFileText sampleTexts false false false {} addedFile (ascii "a") = ascii "added [as new] a\n" ∧
    showFileText sampleTexts false false false {} addedFile (ascii "a@\x7breset\x7d") = ascii "added [as new] a\n" := by
  refine ⟨filePath_short (by decide) (by decide) (by decide +kernel),
    filePath_short (by decide) (by decide) (by decide +kernel),?_⟩
  decide +kernel

end Precizer.Guarantees

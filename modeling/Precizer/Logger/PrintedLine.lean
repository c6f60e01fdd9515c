import Precizer.Logger.MachineRules
import Precizer.Logger.PlainText

/-! # Printed lines

The line of each outcome without styling: its action, its details in brackets and the shown path.
The details are texts the logger leaves as they are and that do not close the bracket.
-/
namespace Precizer.Logger
open General Traversal Database

/-- A text of at most `n` bytes that is printed as it is inside the brackets. -/
structure DetailText (n : ℕ) (text : List Byte) : Prop where
  displayed : DisplayText text
  oneLine : newline ∉ text
  inside : 93 ∉ text
  unmarked : atSign ∉ text
  short : text.length ≤ n

/-- The sizes, the dates and the error texts may stand in the details of a line. -/
structure Texts.Plain (t : Texts) : Prop where
  bkbmbgbtbpbeb : ∀ bytes, DetailText 1024 (t.bkbmbgbtbpbeb bytes)
  secondsToISOdate : ∀ seconds, DetailText 1024 (t.secondsToISOdate seconds)
  strerror : ∀ errno, DetailText 1024 (t.strerror errno)

/-- The shown path leaves room for the rest of its line. -/
def FitsLine (path : RelativePath) : Prop := (sanitized path).length + 4096 ≤ intMax

def machineActions : List String :=
  ["ignored","error","inaccessible","added","locked","critical","updated","rehashed","resumed","interrupted"]

def machineAction : FileLabel → String
  | .ignoredNotAdded | .ignoredNotUpdated => "ignored"
  | .readError _ => "error"
  | .inaccessible => "inaccessible"
  | .addedAsIncluded | .addedAsEmpty | .added => "added"
  | .lockedChecksum => "locked"
  | .lockedChecksumMismatch | .lockedChecksumViolation _ => "critical"
  | .updatedAsIncluded _ | .updatedAsEmpty _ | .updatedMetadata _ => "updated"
  | .rehashedFromTheBeginning _ | .lockedChecksumMatched _ | .rehashed _ => "rehashed"
  | .rehashResumed _ => "resumed"
  | .hashingInterrupted _ => "interrupted"

/-- The metadata changes after the first words of the details. -/
def changesText (t : Texts) (verbose : Bool) (was now : CmpctStat) (changes : Changed) : List Byte :=
  (printChanges t verbose changes was now true).flatten

def machineDetails (t : Texts) (verbose : Bool) (was now : CmpctStat) : FileLabel → List Byte
  | .ignoredNotAdded => ascii "not added"
  | .ignoredNotUpdated => ascii "not updated"
  | .readError errno => ascii "read error: " ++ t.strerror errno
  | .inaccessible => ascii "file"
  | .addedAsIncluded => ascii "as included"
  | .lockedChecksum => ascii "checksum"
  | .addedAsEmpty => ascii "as empty"
  | .added => ascii "as new"
  | .lockedChecksumMismatch => ascii "locked checksum mismatch, data corrupted"
  | .lockedChecksumViolation changes =>
    ascii "locked checksum, data corruption detected" ++ changesText t verbose was now changes
  | .updatedAsIncluded changes => ascii "as included" ++ changesText t verbose was now changes
  | .updatedAsEmpty changes => ascii "as empty" ++ changesText t verbose was now changes
  | .rehashedFromTheBeginning changes => ascii "from the beginning" ++ changesText t verbose was now changes
  | .rehashResumed offset => ascii "hashing from " ++ t.bkbmbgbtbpbeb offset
  | .lockedChecksumMatched changes => ascii "locked checksum matched" ++ changesText t verbose was now changes
  | .rehashed changes =>
    if verbose && flags.any (fun flag => Changed.has changes flag.1) then
      (printChanges t verbose changes was now false).flatten
    else ascii "file"
  | .updatedMetadata changes => ascii "metadata" ++ changesText t verbose was now changes
  | .hashingInterrupted offset => ascii "hashing at " ++ t.bkbmbgbtbpbeb offset

/-- One line of the form `action [details] path`. -/
def machineLine (action : String) (details path : List Byte) : List Byte :=
  ascii action ++ (ascii " [" ++ details ++ ascii "] " ++ path ++ [newline])

section Details

theorem DetailText.mono {n m : ℕ} {text : List Byte} (h : DetailText n text) (hle : n ≤ m) : DetailText m text :=
  { h with short := h.short.trans hle }

theorem DetailText.append {n m : ℕ} {a b : List Byte} (ha : DetailText n a) (hb : DetailText m b) :
    DetailText (n + m) (a ++ b) where
  displayed := ha.displayed.append hb.displayed
  oneLine := fun h => (List.mem_append.mp h).elim ha.oneLine hb.oneLine
  inside := fun h => (List.mem_append.mp h).elim ha.inside hb.inside
  unmarked := fun h => (List.mem_append.mp h).elim ha.unmarked hb.unmarked
  short := by
    rw [List.length_append]
    exact Nat.add_le_add ha.short hb.short

theorem DetailText.flatten {n : ℕ} {texts : List (List Byte)} (h : ∀ text ∈ texts, DetailText n text) :
    DetailText (texts.length * n) texts.flatten := by
  induction texts with
  | nil => exact ⟨.nil,List.not_mem_nil,List.not_mem_nil,List.not_mem_nil,Nat.zero_le _⟩
  | cons text texts ih =>
    have hrest := ih (fun other hother => h other (List.mem_cons_of_mem _ hother))
    refine ((h text List.mem_cons_self).append hrest).mono (Nat.le_of_eq ?_)
    rw [List.length_cons,Nat.succ_mul,Nat.add_comm]

/-- The bytes of the fixed words, digits and signs. -/
def detailByte (b : Byte) : Bool := 0x20 ≤ b.toNat && b.toNat < 0x7F && b.toNat ≠ 93 && b ≠ atSign

theorem DetailText.ofBytes {n : ℕ} {text : List Byte} (h : text.all detailByte = true) (hn : text.length ≤ n) :
    DetailText n text := by
  have hbyte : ∀ b ∈ text, detailByte b = true := List.all_eq_true.mp h
  have hrange : ∀ b, detailByte b = true → 0x20 ≤ b.toNat ∧ b.toNat < 0x7F ∧ b.toNat ≠ 93 ∧ b ≠ atSign := by
    intro b hb
    simpa [detailByte,and_assoc] using hb
  refine ⟨.ascii ?_,?_,?_,?_,hn⟩
  · intro b hb
    obtain ⟨hlow,hhigh,-⟩ := hrange b (hbyte b hb)
    exact ⟨by omega,(controlByte_eq_false (by omega)).mpr (.inr (.inr (.inr ⟨hlow,by omega⟩)))⟩
  · exact fun hmem => absurd (hbyte _ hmem) (by decide)
  · exact fun hmem => absurd (hbyte _ hmem) (by decide)
  · exact fun hmem => absurd (hbyte _ hmem) (by decide)

theorem digit_detailByte {c : Char} (h : c.isDigit = true) : detailByte (UInt8.ofNat c.toNat) = true := by
  have hrange : 48 ≤ c.toNat ∧ c.toNat ≤ 57 := by
    have hdigit := h
    simp only [Char.isDigit,Bool.and_eq_true,decide_eq_true_eq] at hdigit
    exact ⟨hdigit.1,hdigit.2⟩
  have hall : ∀ n, 48 ≤ n → n ≤ 57 → detailByte (UInt8.ofNat n) = true := by
    intro n hlow hhigh
    have hbound : ∀ n < 58, 48 ≤ n → detailByte (UInt8.ofNat n) = true := by decide
    exact hbound n (by omega) hlow
  exact hall _ hrange.1 hrange.2

theorem digits_detailText {n : ℕ} (h : n < 10 ^ 19) : DetailText 19 (ascii n.repr) := by
  refine .ofBytes ?_ ?_
  · rw [ascii,Nat.toList_repr,List.all_map]
    exact List.all_eq_true.mpr (fun c hc => digit_detailByte (Nat.isDigit_of_mem_toDigits (by decide) (by decide) hc))
  · rw [ascii,List.length_map,Nat.toList_repr]
    exact (Nat.length_toDigits_le_iff (by decide) (by decide)).mpr h

theorem ascii_append (a b : String) : ascii (a ++ b) = ascii a ++ ascii b := by
  rw [ascii,String.toList_append,List.map_append]
  rfl

theorem decimal_detailText (n : BitVec 64) : DetailText 20 (decimal n) := by
  have hlow := BitVec.le_toInt n
  have hhigh := BitVec.toInt_lt (x := n)
  rw [decimal,Int.toString_eq_repr,Int.repr_eq_if]
  split
  · exact (digits_detailText (by omega)).mono (by decide)
  · have hsign : DetailText 1 (ascii "-") := .ofBytes (by decide) (by decide)
    rw [ascii_append]
    exact (hsign.append (digits_detailText (by omega))).mono (by decide)

variable {t : Texts} (ht : t.Plain) (was now : CmpctStat)
include ht

theorem showMetadata_detailText (flag : MetadataFlag) : ∀ text ∈ showMetadata t was now flag, DetailText 1100 text := by
  have hwords : DetailText 5 (ascii " was:") ∧ DetailText 6 (ascii ", now:") ∧ DetailText 1 (ascii ".") :=
    ⟨.ofBytes (by decide) (by decide),.ofBytes (by decide) (by decide),.ofBytes (by decide) (by decide)⟩
  have hpair {a b : List Byte} (ha : DetailText 1050 a) (hb : DetailText 1050 b) :
      ∀ text ∈ wasNow a b, DetailText 1100 text := by
    intro text htext
    rcases List.mem_cons.mp htext with rfl | htext
    · exact (hwords.1.append ha).mono (by decide)
    · rw [List.mem_singleton.mp htext]
      exact (hwords.2.1.append hb).mono (by decide)
  have hsize (bytes : ℕ) : DetailText 1050 (t.bkbmbgbtbpbeb bytes) := (ht.bkbmbgbtbpbeb bytes).mono (by decide)
  have htime (seconds nanoseconds : BitVec 64) :
      DetailText 1050 (t.secondsToISOdate seconds ++ ascii "." ++ decimal nanoseconds) :=
    (((ht.secondsToISOdate seconds).append hwords.2.2).append (decimal_detailText nanoseconds)).mono (by decide)
  cases flag with
  | sizeChanged => exact hpair (hsize _) (hsize _)
  | allocatedSizeChanged =>
    rw [showMetadata]
    split
    · simp
    · exact hpair (hsize _) (hsize _)
  | statusChangedTime => exact hpair (htime _ _) (htime _ _)
  | modificationTimeChanged => exact hpair (htime _ _) (htime _ _)

theorem printFlags_detailText (changes : Changed) {separator : List Byte} (hseparator : DetailText 1100 separator)
    {named : List (MetadataFlag × String)} (hnames : ∀ flag ∈ named, DetailText 1100 (ascii flag.2)) :
    ∀ text ∈ printFlags t changes was now separator named, DetailText 1100 text := by
  have hnext : DetailText 1100 (ascii " & ") := .ofBytes (by decide) (by decide)
  induction named generalizing separator with
  | nil => simp [printFlags]
  | cons flag named ih =>
    have hrest := fun {s : List Byte} (hs : DetailText 1100 s) =>
      ih hs (fun f hf => hnames f (List.mem_cons_of_mem _ hf))
    rw [printFlags]
    split
    · intro text htext
      simp only [List.mem_cons,List.mem_append] at htext
      rcases htext with rfl | rfl | htext | htext
      · exact hseparator
      · exact hnames flag List.mem_cons_self
      · exact showMetadata_detailText ht was now flag.1 text htext
      · exact hrest hnext text htext
    · exact hrest hseparator

theorem printChanges_detailText (verbose hasDetails : Bool) (changes : Changed) :
    ∀ text ∈ printChanges t verbose changes was now hasDetails, DetailText 1100 text := by
  have hnames : ∀ flag ∈ flags, DetailText 1100 (ascii flag.2) := by
    intro flag hflag
    have hall : ∀ flag ∈ flags, (ascii flag.2).all detailByte = true ∧ (ascii flag.2).length ≤ 1100 := by decide
    exact .ofBytes (hall flag hflag).1 (hall flag hflag).2
  unfold printChanges
  split
  · refine printFlags_detailText ht was now changes ?_ hnames
    split
    · exact .ofBytes (by decide) (by decide)
    · exact .ofBytes (by decide) (by decide)
  · simp

end Details

section Calls

variable {callback : Bool}

theorem shown_plain {text : List Byte} (h : DisplayText text) (hmarker : atSign ∉ text) : shown text = text :=
  (shown_eq_self text).mpr ⟨h,not_marker_of_notMem hmarker⟩

def actionColors : List (String × String) :=
  [("gray","ignored"),("red","error"),("orange","inaccessible"),("boldgreen","added"),("green","locked"),
    ("green","added"),("red","critical"),("yellow","resumed"),("orange","interrupted")]

/-- The action and the details before the changes, of the lines printed in several calls. -/
def changeHeads : List (String × String × String) :=
  [("red","critical","locked checksum, data corruption detected"),("boldgreen","updated","as included"),
    ("blue","updated","as empty"),("yellow","rehashed","from the beginning"),
    ("yellow","rehashed","locked checksum matched"),("yellow","rehashed",""),("blue","updated","metadata")]

theorem actionText_shown : ∀ pair ∈ actionColors, shown (actionText pair.1 pair.2) = ascii pair.2 ∧
    (sanitized (actionText pair.1 pair.2)).length ≤ 64 := by
  decide +kernel

theorem slog_displayText {level : LogModes} (hlevel : level.machine = true) (hundecor : level.undecor = true)
    {text : List Byte} (h : DisplayText text) (hmarker : atSign ∉ text) (hshort : text.length ≤ intMax) :
    slog false callback level text = text := by
  have hroom : (sanitized text).length ≤ intMax := by
    rw [sanitized_of_text h]
    exact hshort
  rw [slog_plain hlevel hundecor,if_pos hroom]
  exact shown_plain h hmarker

theorem slog_detailText {level : LogModes} (hlevel : level.machine = true) (hundecor : level.undecor = true)
    {text : List Byte} (h : DetailText 2000 text) : slog false callback level text = text :=
  slog_displayText hlevel hundecor h.displayed h.unmarked (h.short.trans (by decide))

theorem changeHeads_shown : ∀ head ∈ changeHeads,
    slog false callback machineLevel (actionText head.1 head.2.1 ++ ascii " [" ++ ascii head.2.2) =
      ascii head.2.1 ++ ascii " [" ++ ascii head.2.2 := by
  have hall : ∀ head ∈ changeHeads, shown (actionText head.1 head.2.1 ++ ascii " [" ++ ascii head.2.2) =
      ascii head.2.1 ++ ascii " [" ++ ascii head.2.2 ∧
      (sanitized (actionText head.1 head.2.1 ++ ascii " [" ++ ascii head.2.2)).length ≤ intMax := by
    decide +kernel
  intro head hhead
  obtain ⟨hshown,hroom⟩ := hall head hhead
  rw [slog_plain rfl rfl,if_pos hroom]
  exact hshown

theorem shown_pathEnd (path : RelativePath) (before : List Byte) :
    shown (before ++ 32 :: (path ++ [newline])) = shown before ++ 32 :: (shown path ++ [newline]) ∧
      (sanitized (before ++ 32 :: (path ++ [newline]))).length =
        (sanitized before).length + (sanitized path).length + 2 := by
  have hunmarked : Unmarked 32 ∧ Unmarked newline := by decide +kernel
  have hempty : shown [] = [] := by decide +kernel
  constructor
  · rw [shown_cut (by decide) (by decide +kernel) hunmarked.1,
      shown_cut (by decide) (by decide +kernel) hunmarked.2,hempty]
  · rw [sanitized_cut (by decide) (by decide +kernel),sanitized_cut (by decide) (by decide +kernel),sanitized_nil]
    simp only [List.length_append,List.length_cons,List.length_nil]
    omega

variable {path : RelativePath} (hpath : FitsLine path)
include hpath

theorem inOneCall_print {pair : String × String} (hpair : pair ∈ actionColors) {details : List Byte}
    (hdetails : DetailText 2000 details) :
    (inOneCall pair.1 pair.2 details).print false callback path = machineLine pair.2 details (shown path) := by
  obtain ⟨haction,hlength⟩ := actionText_shown pair hpair
  have hunmarked : Unmarked 32 := by decide +kernel
  have hbrackets : DisplayText (91 :: (details ++ [93])) := by
    have hopen : DisplayText [91] := .ascii (by decide +kernel)
    have hclose : DisplayText [93] := .ascii (by decide +kernel)
    exact hopen.append (hdetails.displayed.append hclose)
  have hinside : atSign ∉ 91 :: (details ++ [93]) := by
    simpa using ⟨by decide,hdetails.unmarked,by decide⟩
  have hwords : ascii " [" = [32,91] ∧ ascii "] " = [93,32] := by decide
  have hpayload : (inOneCall pair.1 pair.2 details).last ++ path ++ [newline] =
      actionText pair.1 pair.2 ++ 32 :: (91 :: (details ++ [93]) ++ 32 :: (path ++ [newline])) := by
    simp [inOneCall,hwords]
  obtain ⟨hend,hendLength⟩ := shown_pathEnd path (91 :: (details ++ [93]))
  have hroom : (sanitized ((inOneCall pair.1 pair.2 details).last ++ path ++ [newline])).length ≤ intMax := by
    have hshort := hdetails.short
    unfold FitsLine at hpath
    rw [hpayload,sanitized_cut (by decide) (by decide +kernel),List.length_append,List.length_cons,hendLength,
      sanitized_of_text hbrackets]
    simp only [List.length_cons,List.length_append,List.length_nil]
    omega
  have hcall : (inOneCall pair.1 pair.2 details).print false callback path =
      shown ((inOneCall pair.1 pair.2 details).last ++ path ++ [newline]) := by
    rw [MachineHead.print,slog_plain rfl rfl,if_pos hroom]
    rfl
  rw [hcall,hpayload,shown_cut (by decide) (by decide +kernel) hunmarked,hend,haction,
    shown_plain hbrackets hinside,machineLine,hwords.1,hwords.2]
  simp

theorem withChanges_print {level : LogModes} (hlevel : level.machine = true) (hundecor : level.undecor = true)
    {head : String × String × String} (hhead : head ∈ changeHeads) {changes : List (List Byte)}
    (hchanges : ∀ text ∈ changes, DetailText 2000 text) :
    (withChanges level head.1 head.2.1 head.2.2 changes).print false callback path =
      machineLine head.2.1 (ascii head.2.2 ++ changes.flatten) (shown path) := by
  have hbody : changes.flatMap (slog false callback machineLevel) = changes.flatten := by
    rw [List.flatMap_congr (fun text htext => slog_detailText rfl rfl (hchanges text htext)),List.flatMap_id']
  have hclose : slog false callback machineLevel (ascii "]") = ascii "]" :=
    slog_displayText rfl rfl (.ascii (by decide +kernel)) (by decide) (by decide)
  have hspace : ascii " " = [32] := by decide
  have hempty : shown [] = [] := by decide +kernel
  obtain ⟨hend,hendLength⟩ := shown_pathEnd path []
  rw [List.nil_append,sanitized_nil,List.length_nil] at hendLength
  rw [List.nil_append,hempty,List.nil_append] at hend
  have hroom : (sanitized (32 :: (path ++ [newline]))).length ≤ intMax := by
    unfold FitsLine at hpath
    omega
  have hlast : slog false callback level (ascii " " ++ path ++ [newline]) = ascii " " ++ shown path ++ [newline] := by
    rw [hspace,List.singleton_append,List.singleton_append,List.cons_append,List.cons_append,
      slog_plain hlevel hundecor,if_pos hroom]
    exact hend
  rw [MachineHead.print,withChanges]
  dsimp only
  rw [List.flatMap_cons,List.flatMap_append,hbody,List.flatMap_singleton,hclose,hlast,changeHeads_shown head hhead,
    machineLine]
  have hbracket : ascii "] " = ascii "]" ++ ascii " " := by decide
  rw [hbracket]
  simp only [List.append_assoc]

end Calls

theorem machineAction_mem (label : FileLabel) : machineAction label ∈ machineActions := by
  cases label <;> simp [machineAction,machineActions]

section Lines

variable {t : Texts} (ht : t.Plain) (verbose callback : Bool) (was now : CmpctStat)
include ht

/-- Without styling the line of an outcome is its action, its details and the shown path; the
details neither close the bracket nor end the line. -/
theorem print_machineLine (label : FileLabel) :
    (∃ n, DetailText n (machineDetails t verbose was now label)) ∧ ∀ path, FitsLine path →
      (machineHead t verbose was now label).print false callback path =
        machineLine (machineAction label) (machineDetails t verbose was now label) (shown path) := by
  have hone (pair : String × String) (hpair : pair ∈ actionColors) {details : List Byte}
      (hdetails : DetailText 2000 details) : (∃ n, DetailText n details) ∧ ∀ path, FitsLine path →
        (inOneCall pair.1 pair.2 details).print false callback path = machineLine pair.2 details (shown path) :=
    ⟨⟨2000,hdetails⟩,fun path hpath => inOneCall_print hpath hpair hdetails⟩
  have hwords (pair : String × String) (hpair : pair ∈ actionColors) {text : String}
      (h : (ascii text).all detailByte = true) (hn : (ascii text).length ≤ 100) :=
    hone pair hpair ((DetailText.ofBytes h hn).mono (by decide))
  have hnamed (pair : String × String) (hpair : pair ∈ actionColors) {text : String} {details : List Byte}
      (h : (ascii text).all detailByte = true) (hn : (ascii text).length ≤ 100) (hdetails : DetailText 1024 details) :=
    hone pair hpair (((DetailText.ofBytes h hn).append hdetails).mono (by decide))
  have hseveral (level : LogModes) (hlevel : level.machine = true) (hundecor : level.undecor = true)
      (head : String × String × String) (hhead : head ∈ changeHeads) {changes : List (List Byte)}
      (hchanges : ∀ text ∈ changes, DetailText 1100 text) :
      (∃ n, DetailText n (ascii head.2.2 ++ changes.flatten)) ∧ ∀ path, FitsLine path →
        (withChanges level head.1 head.2.1 head.2.2 changes).print false callback path =
          machineLine head.2.1 (ascii head.2.2 ++ changes.flatten) (shown path) := by
    have hwords : ∀ head ∈ changeHeads, (ascii head.2.2).all detailByte = true ∧ (ascii head.2.2).length ≤ 100 := by
      decide
    obtain ⟨hplain,hlength⟩ := hwords head hhead
    refine ⟨⟨_,(DetailText.ofBytes hplain hlength).append (.flatten hchanges)⟩,fun path hpath => ?_⟩
    exact withChanges_print hpath hlevel hundecor hhead (fun text htext => (hchanges text htext).mono (by decide))
  have hchanges := fun hasDetails changes => printChanges_detailText ht was now verbose hasDetails changes
  cases label with
  | ignoredNotAdded => exact hwords ("gray","ignored") (by decide) (by decide) (by decide)
  | ignoredNotUpdated => exact hwords ("gray","ignored") (by decide) (by decide) (by decide)
  | readError errno => exact hnamed ("red","error") (by decide) (by decide) (by decide) (ht.strerror errno)
  | inaccessible => exact hwords ("orange","inaccessible") (by decide) (by decide) (by decide)
  | addedAsIncluded => exact hwords ("boldgreen","added") (by decide) (by decide) (by decide)
  | lockedChecksum => exact hwords ("green","locked") (by decide) (by decide) (by decide)
  | addedAsEmpty => exact hwords ("green","added") (by decide) (by decide) (by decide)
  | added => exact hwords ("green","added") (by decide) (by decide) (by decide)
  | lockedChecksumMismatch => exact hwords ("red","critical") (by decide) (by decide) (by decide)
  | lockedChecksumViolation changes =>
    exact hseveral _ rfl rfl ("red","critical","locked checksum, data corruption detected") (by decide) (hchanges _ _)
  | updatedAsIncluded changes =>
    exact hseveral _ rfl rfl ("boldgreen","updated","as included") (by decide) (hchanges _ _)
  | updatedAsEmpty changes => exact hseveral _ rfl rfl ("blue","updated","as empty") (by decide) (hchanges _ _)
  | rehashedFromTheBeginning changes =>
    exact hseveral _ rfl rfl ("yellow","rehashed","from the beginning") (by decide) (hchanges _ _)
  | rehashResumed offset =>
    exact hnamed ("yellow","resumed") (by decide) (by decide) (by decide) (ht.bkbmbgbtbpbeb offset)
  | lockedChecksumMatched changes =>
    exact hseveral _ rfl rfl ("yellow","rehashed","locked checksum matched") (by decide) (hchanges _ _)
  | rehashed changes =>
    unfold machineHead machineDetails machineAction
    dsimp only
    split
    · exact hseveral _ rfl rfl ("yellow","rehashed","") (by decide) (hchanges _ _)
    · have hfile : DetailText 1100 (ascii "file") := .ofBytes (by decide) (by decide)
      have hone : ∀ text ∈ [ascii "file"], DetailText 1100 text := by simpa using hfile
      exact hseveral everyMachineLevel rfl rfl ("yellow","rehashed","") (by decide) hone
  | updatedMetadata changes => exact hseveral _ rfl rfl ("blue","updated","metadata") (by decide) (hchanges _ _)
  | hashingInterrupted offset =>
    exact hnamed ("orange","interrupted") (by decide) (by decide) (by decide) (ht.bkbmbgbtbpbeb offset)

end Lines

end Precizer.Logger

import Precizer.Database.ConnectionRowid
import Precizer.Traversal.OwnRow
import Precizer.Traversal.SeveralRoots

/-! # One row for one file

Processing a file touches the row of its path and no other. What the rows are after some
files does not depend on their order, unless a read error cuts a file off: then the time
the open batch has reached decides whether a checkpoint was written before.
-/
namespace Precizer.Guarantees
open General Rational Digest Traversal Database

/-- All rows of other paths are as before, and every row keeps its identifier and its path. -/
structure OwnRow (path : RelativePath) (t t' : FilesTable) : Prop where
  others : t'.otherRows path = t.otherRows path
  names : t.names <+: t'.names

/-- The turn of a file touches its row only, in the table in use or, when the database has ended
the transaction by itself, in the committed one. A path that was saved has one row. -/
structure ProcessedAlone (c : Config) (v : Visit) (p : Pass) : Prop where
  own : OwnRow v.entry.path p.session.table (traverseStep c p v).session.table ∨
    (¬ v.Holds ∧ OwnRow v.entry.path p.session.store.committed (traverseStep c p v).session.table)
  single : v.Works → p.session.saves < (traverseStep c p v).session.saves →
    ∃ e, ((traverseStep c p v).session.table.rows.filter fun x => x.key = v.entry.path) = [e]

/-- The pass goes over some files, all different, and reaches its end without an interrupt. -/
structure FilesWalked (c : Config) (visits : List Visit) (p : Pass) : Prop where
  files : ∀ v ∈ visits, v.entry.info = .file
  distinct : (filePaths visits).Nodup
  works : ∀ v ∈ visits, v.Works
  synced : Synced p.session
  status : p.status = successStatus
  continues : p.continueTheLoop = true
  whole : p.skipBelow = none
  uninterrupted : (visits.foldl (traverseStep c) p).interrupted = false

/-- Two passes over the same files in any order, with any times and chunks. -/
structure Reordered (c : Config) (visits visits' : List Visit) (p p' : Pass) : Prop where
  first : FilesWalked c visits p
  second : FilesWalked c visits' p'
  found : (visits.map Visit.found).Perm (visits'.map Visit.found)
  tables : p.session.table = p'.session.table

/-- No read error cuts the file with the path off. -/
def UncutAt (c : Config) (visits : List Visit) (t : FilesTable) (path : RelativePath) : Prop :=
  ∀ v ∈ visits, v.entry.path = path → Uncut c v (storedRow (contents t path))

/-- Both passes have one status; when they succeed, they leave the same columns for every path
whose file was not cut off, and for every other path that is not one of the files. -/
structure SameRows (c : Config) (visits visits' : List Visit) (p p' : Pass) : Prop where
  status : (visits.foldl (traverseStep c) p).status = (visits'.foldl (traverseStep c) p').status
  rows : (visits.foldl (traverseStep c) p).status = successStatus → ∀ path,
    UncutAt c visits p.session.table path → UncutAt c visits' p.session.table path →
      contents (visits.foldl (traverseStep c) p).session.table path =
        contents (visits'.foldl (traverseStep c) p').session.table path

section Alone

variable {c : Config} {v : Visit} {p : Pass}

theorem ownRow_write (path : RelativePath) (saved : List FileColumns) (t : FilesTable) :
    OwnRow path t (writeRow path saved t) :=
  ⟨writeRow_others path saved t,writeRow_names path saved t⟩

theorem processed_alone (hinfo : v.entry.info = .file) : ProcessedAlone c v p := by
  have hkept := traverseStep_kept c p hinfo
  refine ⟨?_,?_⟩
  · rcases hkept.table with ⟨saved,htable⟩ | ⟨hheld,saved,htable⟩
    · left
      rw [htable]
      exact ownRow_write _ saved _
    · right
      rw [htable]
      exact ⟨hheld,ownRow_write _ saved _⟩
  · intro hworks hsaves
    obtain ⟨saved,htable,hcount⟩ := hkept.counted hworks
    have hne : saved ≠ [] := by
      rintro rfl
      rw [hcount] at hsaves
      exact Nat.lt_irrefl _ hsaves
    obtain ⟨before,columns,rfl⟩ := (List.eq_nil_or_concat saved).resolve_left hne
    obtain ⟨i,hrows⟩ := writeRow_single v.entry.path before columns p.session.table
    rw [htable,List.concat_eq_append]
    exact ⟨_,hrows⟩

end Alone

section Order

variable {c : Config} {visits visits' : List Visit} {p p' : Pass}

/-- The outcome of a visit in a pass that starts with the table. -/
def outcomeIn (c : Config) (t : FilesTable) (v : Visit) : VisitOutcome :=
  visitOutcome c v (contents t v.entry.path)

theorem file_skips {stored : Option FileColumns} {v : Visit} (hinfo : v.entry.info = .file) :
    (visitOutcome c v stored).skipBelow = none := by
  unfold visitOutcome entryOutcome
  rw [hinfo]
  split
  · rfl
  · exact fileOutcome_skipBelow v stored

theorem walkPlan_files (t : FilesTable) (hfiles : ∀ v ∈ visits, v.entry.info = .file) :
    planFailed (walkPlan c (contents t) none visits) = visits.any (fun v => (outcomeIn c t v).failed) ∧
      (planFailed (walkPlan c (contents t) none visits) = false →
        walkPlan c (contents t) none visits = visits.map fun v => (v,outcomeIn c t v)) := by
  induction visits with
  | nil => exact ⟨rfl,fun _ => rfl⟩
  | cons v rest ih =>
    obtain ⟨hfailed,hplan⟩ := ih fun w hw => hfiles w (List.mem_cons_of_mem _ hw)
    have hcons : walkPlan c (contents t) none (v :: rest) = (v,outcomeIn c t v) ::
        if (outcomeIn c t v).failed then [] else walkPlan c (contents t) none rest := by
      rw [walkPlan,if_pos (show delivered none v.entry = true from rfl)]
      dsimp only
      rw [file_skips (hfiles v List.mem_cons_self)]
      rfl
    rw [hcons]
    cases hfirst : (outcomeIn c t v).failed with
    | true => simp [planFailed,hfirst]
    | false =>
      simp only [planFailed,List.any_cons,hfirst,Bool.false_or,Bool.false_eq_true,↓reduceIte,List.map_cons,
        List.cons.injEq,true_and]
      exact ⟨hfailed,hplan⟩

theorem outcomeIn_found (t : FilesTable) {v v' : Visit} (h : v.found = v'.found) :
    outcomeIn c t v = outcomeIn c t v' := by
  have hentry : v.entry = v'.entry := congrArg TreeEntry.entry h
  rw [outcomeIn,outcomeIn,visitOutcome_found h,hentry]

theorem FilesWalked.followed (h : FilesWalked c visits p) :
    Followed c (walkPlan c (contents p.session.table) none visits) p (visits.foldl (traverseStep c) p) := by
  rw [← h.whole]
  exact walk_follows _ visits h.works h.distinct h.synced h.status h.continues (fun _ _ => rfl) h.uninterrupted

theorem FilesWalked.failed (h : FilesWalked c visits p) : (visits.foldl (traverseStep c) p).status =
    if visits.any (fun v => (outcomeIn c p.session.table v).failed) then failureStatus else successStatus := by
  obtain ⟨hfailed,-⟩ := walkPlan_files (c := c) p.session.table h.files
  rw [← hfailed]
  split
  · rename_i hplan
    exact (h.followed.stops hplan).1
  · rename_i hplan
    exact (h.followed.goes (by simpa using hplan)).1

theorem FilesWalked.rows (h : FilesWalked c visits p)
    (hok : visits.any (fun v => (outcomeIn c p.session.table v).failed) = false) :
    (∀ v ∈ visits, Uncut c v (storedRow (contents p.session.table v.entry.path)) →
      contents (visits.foldl (traverseStep c) p).session.table v.entry.path =
        if c.dryRun then contents p.session.table v.entry.path
        else (outcomeIn c p.session.table v).columns.or (contents p.session.table v.entry.path)) ∧
      ∀ path, path ∉ filePaths visits →
        contents (visits.foldl (traverseStep c) p).session.table path = contents p.session.table path := by
  obtain ⟨hfailed,hplan⟩ := walkPlan_files (c := c) p.session.table h.files
  have hnot := hfailed.trans hok
  have hfollowed := h.followed
  refine ⟨?_,?_⟩
  · intro v hv huncut
    have hmem : (v,outcomeIn c p.session.table v) ∈ walkPlan c (contents p.session.table) none visits := by
      rw [hplan hnot]
      exact List.mem_map_of_mem hv
    cases hdry : c.dryRun with
    | true => rw [if_pos rfl,hfollowed.dry hdry]
    | false =>
      rw [if_neg (by decide)]
      cases hcolumns : (outcomeIn c p.session.table v).columns with
      | some columns => exact hfollowed.written hdry hnot _ hmem columns hcolumns
      | none => exact hfollowed.unwritten hnot _ hmem (h.files v hv) huncut hcolumns
  · intro path hpath
    exact hfollowed.others hnot path fun hvisited => hpath (visits_walkPlan hvisited)

theorem Reordered.symm (h : Reordered c visits visits' p p') : Reordered c visits' visits p' p :=
  ⟨h.second,h.first,h.found.symm,h.tables.symm⟩

theorem Reordered.partner (h : Reordered c visits visits' p p') {v : Visit} (hv : v ∈ visits) :
    ∃ v' ∈ visits', v'.found = v.found :=
  List.mem_map.mp (h.found.mem_iff.mp (List.mem_map_of_mem hv))

theorem Reordered.anyFailed (h : Reordered c visits visits' p p')
    (hany : visits.any (fun v => (outcomeIn c p.session.table v).failed) = true) :
    visits'.any (fun v => (outcomeIn c p'.session.table v).failed) = true := by
  obtain ⟨v,hv,hfailed⟩ := List.any_eq_true.mp hany
  obtain ⟨v',hv',hfound⟩ := h.partner hv
  refine List.any_eq_true.mpr ⟨v',hv',?_⟩
  rw [← h.tables,outcomeIn_found _ hfound]
  exact hfailed

theorem Reordered.unvisited (h : Reordered c visits visits' p p') {path : RelativePath} (hpath : path ∉ filePaths visits) :
    path ∉ filePaths visits' := by
  intro hmem
  obtain ⟨v',hv',hinfo,rfl⟩ := mem_filePaths.mp hmem
  obtain ⟨v,hv,hfound⟩ := h.symm.partner hv'
  have hentry : v.entry = v'.entry := congrArg TreeEntry.entry hfound
  exact hpath (mem_filePaths.mpr ⟨v,hv,hentry ▸ hinfo,by rw [hentry]⟩)

/-- The order of the files does not matter. -/
theorem Reordered.rows (h : Reordered c visits visits' p p') : SameRows c visits visits' p p' := by
  have hany : visits.any (fun v => (outcomeIn c p.session.table v).failed) =
      visits'.any (fun v => (outcomeIn c p'.session.table v).failed) :=
    Bool.eq_iff_iff.mpr ⟨h.anyFailed,h.symm.anyFailed⟩
  refine ⟨?_,?_⟩
  · rw [h.first.failed,h.second.failed,hany]
  · intro hsuccess path huncut huncut'
    have hok : visits.any (fun v => (outcomeIn c p.session.table v).failed) = false := by
      by_contra hfailed
      rw [h.first.failed,if_pos (by simpa using hfailed)] at hsuccess
      cases hsuccess
    obtain ⟨hown,hothers⟩ := h.first.rows hok
    obtain ⟨hown',hothers'⟩ := h.second.rows (hany ▸ hok)
    rw [← h.tables] at hown' hothers'
    by_cases hpath : path ∈ filePaths visits
    · obtain ⟨v,hv,-,rfl⟩ := mem_filePaths.mp hpath
      obtain ⟨v',hv',hfound⟩ := h.partner hv
      have hentry : v'.entry.path = v.entry.path := congrArg (fun e => e.entry.path) hfound
      have hsecond := hown' v' hv' (hentry ▸ huncut' v' hv' hentry)
      rw [hentry,outcomeIn_found _ hfound] at hsecond
      rw [hown v hv (huncut v hv rfl),hsecond]
    · rw [hothers path hpath,hothers' path (h.unvisited hpath)]

end Order

/-- Every turn of a file touches its own row, with the identifier the connection reports for it,
and what passes over the same files leave does not depend on the order, but for files that a
read error cuts off. -/
theorem one_row_for_one_file :
    (∀ (c : Config) (v : Visit) (p : Pass), v.entry.info = .file → ProcessedAlone c v p) ∧
      (∀ (c : Config) (halted : Bool) (script : SaveScript) (errors : List (Bool × Message)) (path : RelativePath)
        (file : File) (pathKnown mark : Bool) (k : Connection),
        let r := k.saveFileRecord c halted script errors path file pathKnown mark
        dbSaveFileRecord c halted script path file pathKnown mark k.session =
          ⟨r.status,r.connection.session,r.file,r.pathKnown⟩) ∧
      ∀ (c : Config) (visits visits' : List Visit) (p p' : Pass), Reordered c visits visits' p p' →
        SameRows c visits visits' p p' :=
  ⟨fun _ _ _ hinfo => processed_alone hinfo,Connection.saveFileRecord_eq,fun _ _ _ _ _ h => h.rows⟩

/-- A file of two bytes whose second one cannot be read, hashed from some time on. -/
def cutFile (startNs nowNs : ℤ) : Visit :=
  { Visit.plain (.plain [98] 2 1) {
      content := [1,2]
      openErrno := none
      seekable := fun _ => true
      turns := fun start => if start = 0 then [⟨[1],by decide,nowNs,{},.done⟩] else []
      readErrno := fun _ => some 5 } with
    nowNs := startNs
    hashStartNs := startNs }

def wholeFile : Visit := .plain (.plain [97] 1 1) (.plain [7])

/-- The whole file opens a batch fourteen seconds before the other is hashed. -/
def wholeFirst : List Visit := [wholeFile,cutFile 14000000000 15000000000]

def cutFirst : List Visit := [cutFile 0 1000000000,wholeFile]

def emptyStart : Pass := { session := { store := .opened .empty [] } }

theorem cutFile_works (startNs nowNs : ℤ) : (cutFile startNs nowNs).Works where
  pathBuilt := rfl
  lookup := rfl
  batchCommit := rfl
  save := ⟨rfl,rfl⟩
  remember := show SqlOutcome.done ≠ .rolledBack by decide
  turns := by
    intro start t ht
    change t ∈ (if start = 0 then _ else _) at ht
    split at ht
    · rw [List.mem_singleton.mp ht]
      exact ⟨⟨rfl,rfl⟩,rfl⟩
    · cases ht

theorem cutFile_found (startNs nowNs : ℤ) : (cutFile startNs nowNs).found =
    ⟨.plain [98] 2 1,.accessAllowed,⟨[1,2],none,fun _ => true,fun start => if start = 0 then [1] else [],fun _ => some 5⟩⟩ := by
  have hdelivered : (cutFile startNs nowNs).disk.delivered = fun start => if start = 0 then [1] else [] := by
    funext start
    change (if start = 0 then _ else _ : List Turn).flatMap Turn.bytes = _
    split
    · rfl
    · rfl
  rw [Visit.found,DiskFile.reading,hdelivered]
  rfl

theorem filesWalked_pair {v w : Visit} (hv : v.Works) (hw : w.Works) (hinfo : v.entry.info = .file)
    (hinfo' : w.entry.info = .file) (hpaths : v.entry.path ≠ w.entry.path)
    (hquiet : ([v,w].foldl (traverseStep { update := true }) emptyStart).interrupted = false) :
    FilesWalked { update := true } [v,w] emptyStart where
  files := by
    intro x hx
    rcases List.mem_pair.mp hx with rfl | rfl
    · exact hinfo
    · exact hinfo'
  distinct := by simp [filePaths,hinfo,hinfo',hpaths]
  works := by
    intro x hx
    rcases List.mem_pair.mp hx with rfl | rfl
    · exact hv
    · exact hw
  synced := rfl
  status := rfl
  continues := rfl
  whole := rfl
  uninterrupted := hquiet

theorem reordered_cut : Reordered { update := true } wholeFirst cutFirst emptyStart emptyStart where
  first := filesWalked_pair (Visit.plain_works _ _) (cutFile_works _ _) rfl rfl (by decide) (by decide +kernel)
  second := filesWalked_pair (cutFile_works _ _) (Visit.plain_works _ _) rfl rfl (by decide) (by decide +kernel)
  found := by
    rw [wholeFirst,cutFirst,List.map_cons,List.map_cons,List.map_cons,List.map_cons,cutFile_found,cutFile_found]
    exact List.Perm.swap _ _ _
  tables := rfl

theorem one_row_for_wholeFile :
    (∃ e, ((traverseStep { update := true } emptyStart wholeFile).session.table.rows.filter fun x =>
      x.key = wholeFile.entry.path) = [e]) ∧ SameRows { update := true } wholeFirst cutFirst emptyStart emptyStart := by
  obtain ⟨halone,-,horder⟩ := one_row_for_one_file
  have hsaved : emptyStart.session.saves < (traverseStep { update := true } emptyStart wholeFile).session.saves := by
    decide +kernel
  exact ⟨(halone { update := true } wholeFile emptyStart rfl).single (Visit.plain_works _ _) hsaved,
    horder _ _ _ _ _ reordered_cut⟩

/-- A checkpoint of the cut-off file is due in one order only. -/
theorem rows_depend_on_order : ¬ ∀ (c : Config) (visits visits' : List Visit) (p p' : Pass),
    Reordered c visits visits' p p' → (visits.foldl (traverseStep c) p).status = successStatus →
      ∀ path, contents (visits.foldl (traverseStep c) p).session.table path =
        contents (visits'.foldl (traverseStep c) p').session.table path := by
  intro h
  have hsame := h { update := true } wholeFirst cutFirst emptyStart emptyStart reordered_cut (by decide +kernel) [98]
  have hfirst : (contents (wholeFirst.foldl (traverseStep { update := true }) emptyStart).session.table [98]).isSome =
      true := by decide +kernel
  have hsecond : (contents (cutFirst.foldl (traverseStep { update := true }) emptyStart).session.table [98]).isSome =
      false := by decide +kernel
  rw [hsame,hsecond] at hfirst
  cases hfirst

end Precizer.Guarantees

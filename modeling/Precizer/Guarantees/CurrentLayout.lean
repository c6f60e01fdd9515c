import Precizer.Database.UpgradeRules
import Precizer.Pipeline.RunRules

/-! # Rows in the present layout

The content pass copies a fixed number of bytes out of every metadata blob it loads. The
version check before it is what makes these blobs current; in a dry run it succeeds on
an older database without touching a row.
-/
namespace Precizer.Guarantees
open General Rational Traversal Database Pipeline

/-- The blob has the layout a database of the version stores. -/
def BlobOfVersion (version : ℤ) (blob : List UInt8) : Prop :=
  if version < 1 then stat64Size ≤ blob.length
  else if version < 4 then ∃ s : CmpctStatV1, blob = s.toBytes
  else CurrentBlob blob

def rowSelected (v : Visit) (p : Pass) : Bool :=
  !(run (globalReturnStatus (v.signal.halted .path)) p.status (leave (v.signal.halted .path) v.pathBuilt)).skip &&
    v.lookup = .done

/-- The blob the lookup copies into the loaded row. -/
def copiedStat (v : Visit) (p : Pass) : Option (List UInt8) :=
  if rowSelected v p then (p.session.table.find v.entry.path).bind (fun e => e.value.stat) else none

def storedBlob (d : DatabaseFile) (path : RelativePath) : Option (List UInt8) :=
  (d.files.find path).bind (fun e => e.value.stat)

/-- The run after the check of its database: it goes on when the check lets it, and an
interrupt during the check is still pending. -/
def checkedRun (u : UpgradeScript) (d : DatabaseFile) (r : RunScript) : RunScript :=
  let status := (dbIntegrityCheck r.config u (.opened d [])).1
  { r with
    before := if status.skip then status else r.before
    pass := { r.pass with raisedBefore := r.pass.raisedBefore || u.signal.arrived } }

def checkedFiles (c : Config) (u : UpgradeScript) (d : DatabaseFile) : FilesTable :=
  (dbIntegrityCheck c u (.opened d [])).2.working.files

/-- The regular files the content pass of a checked run meets. -/
def checkedMet (u : UpgradeScript) (d : DatabaseFile) (r : RunScript) : List (Visit × Pass) :=
  runMet (checkedRun u d r) (openSession (checkedFiles r.config u d) [])

theorem savedColumns_current {c : Config} {v : Visit} {row : DBrow} {log : List Event} {columns : FileColumns}
    (h : SavedColumns c v row log columns) : columns.stat = some (statCopy v.entry.statp).toBytes := by
  cases h <;> rfl

theorem savesKeep_current (c : Config) (v : Visit) (p : Pass) :
    SavesKeep (fun _ t => CurrentTable t) c v p := by
  intro log columns t t' _ _ hpoint hreplaces hcurrent path e blob hfind hblob
  obtain ⟨⟨id,hrow⟩,hother⟩ := hreplaces
  by_cases hpath : path = v.entry.path
  · subst hpath
    rw [hrow] at hfind
    cases hfind
    rw [savedColumns_current hpoint.columns] at hblob
    exact ⟨_,(Option.some.inj hblob).symm⟩
  · exact hcurrent path e blob ((hother path hpath).symm.trans hfind) hblob

theorem stable_table (P : FilesTable → Prop) : Store.Stable (fun (_ : List Event) t => P t) :=
  fun _ _ _ h => h

section Met

variable {u : UpgradeScript} {d : DatabaseFile} {r : RunScript}

theorem checked_of_met {m : Visit × Pass} (hm : m ∈ checkedMet u d r) :
    (dbIntegrityCheck r.config u (.opened d [])).1 = successStatus ∧ u.signal.arrival = none := by
  have hconclusive := dbIntegrityCheck_conclusive r.config u (.opened d [])
  have hskip : (dbIntegrityCheck r.config u (.opened d [])).1.skip = false := by
    by_contra hskip
    have hskip : (dbIntegrityCheck r.config u (.opened d [])).1.skip = true := by simpa using hskip
    simp [checkedMet,runMet,checkedRun,hskip] at hm
  refine ⟨?_,?_⟩
  · simpa [Return.conclusive,hskip] using hconclusive
  · by_contra harrival
    have harrived : u.signal.arrived = true := by
      rw [Signal.arrived,Option.isSome_iff_ne_none]
      exact harrival
    have hnone : checkedMet u d r = [] := by
      unfold checkedMet runMet
      split
      · rfl
      · unfold passMet
        split
        · rfl
        · split
          · rfl
          · exact rootsMet_interrupted _ (by simp [passStart,checkedRun,harrived])
    rw [hnone] at hm
    cases hm

theorem checkedMet_always {P : FilesTable → Prop} (h : P (checkedFiles r.config u d))
    (hkeep : ∀ m ∈ checkedMet u d r, SavesKeep (fun _ t => P t) r.config m.1 m.2) :
    ∀ m ∈ checkedMet u d r, P m.2.session.table := by
  intro m hm
  unfold checkedMet runMet at hm hkeep
  split at hm
  · cases hm
  · rename_i hskip
    rw [if_neg hskip] at hkeep
    have hstart : (openSession (checkedFiles r.config u d) []).Always fun _ t => P t := openSession_always h
    exact (passMet_always (stable_table P) _ hstart (fun m hm _ => hkeep m hm) m hm).working

theorem table_of_dry (hdry : r.config.dryRun = true) {m : Visit × Pass} (hm : m ∈ checkedMet u d r) :
    m.2.session.table = d.files := by
  have hfiles : checkedFiles r.config u d = d.files := by
    rw [checkedFiles,dbIntegrityCheck_dry r.config u hdry]
    rfl
  refine checkedMet_always (P := fun t => t = d.files) hfiles ?_ m hm
  intro m _ log columns t t' hwrites
  rw [hdry] at hwrites
  cases hwrites

end Met

/-- The copied blobs are in the present layout exactly when the database is at the current
version, the run may write, or no row it selects has any metadata. -/
theorem copies_current_iff {d : DatabaseFile} (hversion : d.version ≤ 4)
    (hlayout : ∀ path blob, storedBlob d path = some blob → BlobOfVersion d.version blob)
    (u : UpgradeScript) (r : RunScript) :
    (∀ m ∈ checkedMet u d r, ∀ blob, copiedStat m.1 m.2 = some blob → CurrentBlob blob ∧ blob.length = 64) ↔
      d.version = 4 ∨ r.config.dryRun = false ∨
        ∀ m ∈ checkedMet u d r, rowSelected m.1 m.2 = true →
          storedBlob d m.1.entry.path = none := by
  have hcurrentFiles : d.version = 4 → CurrentTable d.files := by
    intro hcurrent path e blob hfind hblob
    have hstored : storedBlob d path = some blob := by
      rw [storedBlob,hfind]
      exact hblob
    have hblobOf := hlayout path blob hstored
    rw [hcurrent,BlobOfVersion,if_neg (by decide),if_neg (by decide)] at hblobOf
    exact hblobOf
  have hcopied : ∀ m ∈ checkedMet u d r, CurrentTable m.2.session.table →
      ∀ blob, copiedStat m.1 m.2 = some blob → CurrentBlob blob ∧ blob.length = 64 := by
    intro m _ htable blob hblob
    unfold copiedStat at hblob
    split at hblob
    · obtain ⟨e,hfind,hstat⟩ := Option.bind_eq_some_iff.mp hblob
      have hblobOf := htable m.1.entry.path e blob hfind hstat
      exact ⟨hblobOf,hblobOf.size⟩
    · cases hblob
  have hkeepAll : ∀ m ∈ checkedMet u d r, SavesKeep (fun _ t => CurrentTable t) r.config m.1 m.2 :=
    fun m _ => savesKeep_current r.config m.1 m.2
  cases hdry : r.config.dryRun with
  | false =>
    refine iff_of_true ?_ (.inr (.inl rfl))
    intro m hm
    refine hcopied m hm ?_
    obtain ⟨hok,hquiet⟩ := checked_of_met hm
    refine checkedMet_always ?_ hkeepAll m hm
    rcases dbIntegrityCheck_current r.config u d hdry hquiet hok with ⟨hsame,hcurrent⟩ | hcurrent
    · rw [checkedFiles,hsame]
      exact hcurrentFiles hcurrent
    · exact hcurrent
  | true =>
    by_cases hcurrent : d.version = 4
    · refine iff_of_true ?_ (.inl hcurrent)
      intro m hm
      refine hcopied m hm ?_
      rw [table_of_dry hdry hm]
      exact hcurrentFiles hcurrent
    · have hcopies : ∀ m ∈ checkedMet u d r, copiedStat m.1 m.2 =
          if rowSelected m.1 m.2 then storedBlob d m.1.entry.path else none := by
        intro m hm
        rw [copiedStat,table_of_dry hdry hm]
        rfl
      constructor
      · intro hall
        refine .inr (.inr ?_)
        intro m hm hselected
        cases hstored : storedBlob d m.1.entry.path with
        | none => rfl
        | some blob =>
          have hcopy := hcopies m hm
          rw [if_pos hselected,hstored] at hcopy
          obtain ⟨-,hsize⟩ := hall m hm blob hcopy
          have hblobOf := hlayout m.1.entry.path blob hstored
          unfold BlobOfVersion at hblobOf
          split at hblobOf
          · rw [hsize] at hblobOf
            exact absurd hblobOf (by decide)
          · rw [if_pos (by omega)] at hblobOf
            obtain ⟨s,rfl⟩ := hblobOf
            rw [CmpctStatV1.toBytes_length] at hsize
            cases hsize
      · rintro (hcurrent' | hfalse | hnone)
        · exact absurd hcurrent' hcurrent
        · cases hfalse
        · intro m hm blob hblob
          rw [hcopies m hm] at hblob
          split at hblob
          · rename_i hselected
            rw [hnone m hm hselected] at hblob
            cases hblob
          · cases hblob

/-- A database of version 3 with one row, met by a dry run of an update. -/
def olderFile : DatabaseFile where
  metadata := some [3]
  files := .singleton 1 [97] ⟨none,none,some (CmpctStatV1.mk 1 1 0 1 0).toBytes,none⟩

def dryUpdate : RunScript :=
  .plain { update := true, dryRun := true } [.plain (.plain [97] 1 1) (.plain [7])] fun _ => .accessAllowed

theorem storedBlob_olderFile {path : RelativePath} {blob : List UInt8} (h : storedBlob olderFile path = some blob) :
    BlobOfVersion olderFile.version blob := by
  obtain ⟨e,hfind,hstat⟩ := Option.bind_eq_some_iff.mp h
  have hrow := (UniqueTable.find_eq_some_iff.mp hfind).1
  have he : e = ⟨1,[97],⟨none,none,some (CmpctStatV1.mk 1 1 0 1 0).toBytes,none⟩⟩ := List.mem_singleton.mp hrow
  rw [he] at hstat
  cases hstat
  exact ⟨_,rfl⟩

theorem copies_current_dryUpdate :
    (∀ m ∈ checkedMet {} olderFile dryUpdate, ∀ blob, copiedStat m.1 m.2 = some blob →
      CurrentBlob blob ∧ blob.length = 64) ↔
      olderFile.version = 4 ∨ dryUpdate.config.dryRun = false ∨
        ∀ m ∈ checkedMet {} olderFile dryUpdate, rowSelected m.1 m.2 = true →
          storedBlob olderFile m.1.entry.path = none :=
  copies_current_iff (by decide) (fun _ _ => storedBlob_olderFile) {} dryUpdate

/-- The dry run copies 64 bytes out of a blob of 40. -/
theorem copies_older_layout : olderFile.version = 3 ∧
    (∀ path blob, storedBlob olderFile path = some blob → BlobOfVersion olderFile.version blob) ∧
    ∃ m ∈ checkedMet {} olderFile dryUpdate, ∃ blob, copiedStat m.1 m.2 = some blob ∧
      ¬ CurrentBlob blob ∧ blob.length = 40 := by
  refine ⟨rfl,fun _ _ => storedBlob_olderFile,_,List.mem_cons_self,(CmpctStatV1.mk 1 1 0 1 0).toBytes,rfl,?_,rfl⟩
  intro hcurrent
  cases hcurrent.size

end Precizer.Guarantees

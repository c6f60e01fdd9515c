import Precizer.Traversal.SeveralRoots
import Precizer.Pipeline.RunRules

/-! # One row for several files

The table knows a file by its path below its root, not by the root. Files of different
roots share a row exactly when they have the same relative path, and a file that has a row
already keeps its old digest unless the row is renewed.
-/
namespace Precizer.Guarantees
open General Rational Digest Traversal Database Pipeline

/-- A pass over some roots, complete, without an interrupt or a failure. -/
structure CompletedPass (c : Config) (roots : List WalkedRoot) (script : PassScript) (t : FilesTable)
    (log : List Event) : Prop where
  works : script.Works
  walked : script.roots = roots.map WalkedRoot.script
  sound : ∀ r ∈ roots, r.Sound
  constant : SameTrees roots
  compare : c.compare = false
  writes : c.dryRun = false
  uninterrupted : (fileList c script (openSession t log)).interrupted = false
  completed : (fileList c script (openSession t log)).status.failure = false

/-- Every file has a row with its own digest and metadata, and no other file has that row. -/
def OwnRows (c : Config) (roots : List WalkedRoot) (t : FilesTable) : Prop :=
  (∀ r ∈ roots, ∀ v, InScope c r.visits v → ∃ e, t.find v.entry.path = some e ∧ e.value = v.found.columns) ∧
    ∀ r ∈ roots, ∀ v, InScope c r.visits v → ∀ r' ∈ roots, ∀ v', InScope c r'.visits v' →
      (r.root ≠ r'.root ∨ v.entry.path ≠ v'.entry.path) → t.find v.entry.path ≠ t.find v'.entry.path

/-- No turn of the pass changes the row of a file other than its own. -/
def NeverOverwrites (c : Config) (roots : List WalkedRoot) (start : Pass) : Prop :=
  ∀ r v p, (r,v,p) ∈ rootTurns c roots start → InScope c r.visits v →
    ∀ r' ∈ roots, ∀ v', InScope c r'.visits v' → (r.root ≠ r'.root ∨ v.entry.path ≠ v'.entry.path) →
      contents (traverseStep c p v).session.table v'.entry.path = contents p.session.table v'.entry.path

/-- Distinct files never share a row. -/
def FilesApart (c : Config) (roots : List WalkedRoot) (script : PassScript) (t : FilesTable) (log : List Event) :
    Prop :=
  OwnRows c roots (fileList c script (openSession t log)).session.table ∧
    NeverOverwrites c roots (passStart script (openSession t log))

section Pass

variable {c : Config} {roots : List WalkedRoot} {script : PassScript} {t : FilesTable} {log : List Event}

theorem CompletedPass.visitsWork (h : CompletedPass c roots script t log) :
    ∀ r ∈ roots, ∀ v ∈ r.visits, v.Works := by
  intro r hr
  have hmem : r.script ∈ script.roots := by
    rw [h.walked]
    exact List.mem_map_of_mem hr
  exact (h.works.roots _ hmem).visits

theorem CompletedPass.performs (h : CompletedPass c roots script t log) : performFileHashing c = true := by
  rw [performFileHashing,h.writes]
  rfl

theorem CompletedPass.rows (h : CompletedPass c roots script t log) (hapart : PathsApart c roots) :
    (∀ r ∈ roots, ∀ v, InScope c r.visits v →
      contents (fileList c script (openSession t log)).session.table v.entry.path =
          settledRow c v (contents t v.entry.path) ∧
        (fileOutcome c v (contents t v.entry.path)).failed = false) ∧
      NeverOverwrites c roots (passStart script (openSession t log)) := by
  obtain ⟨hrun,hwalk,hbefore,hfinish⟩ := fileList_walked h.works h.compare h.uninterrupted
  have hcompleted := h.completed
  rw [hrun] at hcompleted ⊢
  rw [h.walked] at hwalk hcompleted ⊢
  have hstart : RowsOf c [] t (passStart script (openSession t log)) :=
    ⟨rfl,rfl,rfl,hbefore,(fun r hr => by cases hr),(fun r hr => by cases hr),fun _ _ => rfl⟩
  obtain ⟨hended,hhalted,hstatus⟩ := walks_end (p := passStart script (openSession t log)) roots h.sound h.visitsWork
    rfl rfl rfl hwalk
  obtain ⟨hfailed,hrows⟩ := finishPass_rows hended (hhalted.trans hbefore) h.works.commit h.works.rollback hfinish
  have hok : (walkRoots c (roots.map WalkedRoot.script) (passStart script (openSession t log))).status =
      successStatus := by
    refine hstatus.resolve_right fun hno => ?_
    rw [hfailed hno] at hcompleted
    cases hcompleted
  have hwalked := hstart.walks h.writes roots h.sound h.visitsWork hapart h.constant hwalk (by rw [hok]; rfl)
  have hsynced : Synced (passStart script (openSession t log)).session := rfl
  constructor
  · intro r hr v hv
    rw [hrows hok]
    exact ⟨hwalked.own r hr v hv,hwalked.fine r hr v hv⟩
  · intro r v p hturn hv r' hr' v' hv' hdiffer
    have hothers := rootTurns_others roots h.sound h.visitsWork hsynced rfl rfl hwalk _ hturn
    refine hothers v'.entry.path fun hpath => ?_
    rcases hdiffer with hroots | hpaths
    · exact hroots (hapart r (rootTurns_root hturn) v hv r' hr' v' hv' hpath.symm)
    · exact hpaths hpath.symm

theorem CompletedPass.own_iff (h : CompletedPass c roots script t log) (hapart : PathsApart c roots)
    {r : WalkedRoot} (hr : r ∈ roots) {v : Visit} (hv : InScope c r.visits v) :
    (∃ e, (fileList c script (openSession t log)).session.table.find v.entry.path = some e ∧
      e.value = v.found.columns) ↔ Owned c v (contents t v.entry.path) := by
  obtain ⟨hsettled,hgoes⟩ := (h.rows hapart).1 r hr v hv
  obtain ⟨haccess,hconstant⟩ := (h.sound r hr).readable v (mem_deliveredVisits hv.delivered) hv.info
  rw [← settledRow_iff hconstant haccess h.performs hv.visible hgoes,← hsettled,contents,Option.map_eq_some_iff]

/-- Distinct files never share a row, and every row is that of its file, exactly when files with
the same relative path lie under the same root and every row that the pass finds is right or renewed. -/
theorem files_apart_iff (h : CompletedPass c roots script t log) :
    FilesApart c roots script t log ↔
      (∀ r ∈ roots, ∀ v, InScope c r.visits v → ∀ r' ∈ roots, ∀ v', InScope c r'.visits v' →
        v.entry.path = v'.entry.path → r.root = r'.root) ∧
      ∀ r ∈ roots, ∀ v, InScope c r.visits v → Owned c v (contents t v.entry.path) := by
  constructor
  · rintro ⟨⟨hfound,hrows⟩,-⟩
    have hapart : PathsApart c roots := by
      intro r hr v hv r' hr' v' hv' hpath
      by_contra hroots
      exact hrows r hr v hv r' hr' v' hv' (.inl hroots) (by rw [hpath])
    exact ⟨hapart,fun r hr v hv => (h.own_iff hapart hr hv).mp (hfound r hr v hv)⟩
  · rintro ⟨hapart,howned⟩
    have hfound {r : WalkedRoot} (hr : r ∈ roots) {v : Visit} (hv : InScope c r.visits v) :=
      (h.own_iff hapart hr hv).mpr (howned r hr v hv)
    refine ⟨⟨fun r hr v hv => hfound hr hv,?_⟩,(h.rows hapart).2⟩
    intro r hr v hv r' hr' v' hv' hdiffer hsame
    have hpath : v.entry.path = v'.entry.path := by
      obtain ⟨e,he,-⟩ := hfound hr hv
      have he' := he
      rw [hsame] at he'
      rw [← UniqueTable.key_of_find he,← UniqueTable.key_of_find he']
    rcases hdiffer with hroots | hpaths
    · exact hroots (hapart r hr v hv r' hr' v' hv' hpath)
    · exact hpaths hpath

end Pass

/-- A file `x` of one byte, last changed at some time, below a root. -/
def rootOfX (root : RootPath) (byte : UInt8) (time : BitVec 64) : WalkedRoot :=
  ⟨root,[([[120]],.plain (.plain [120] 1 time) (.plain [byte]))]⟩

/-- `precizer --update /a /b` over two different files `x`. -/
def rootsOfX : List WalkedRoot := [rootOfX [47,97] 7 1,rootOfX [47,98] 8 2]

def rootsScript (roots : List WalkedRoot) : PassScript :=
  { PassScript.plain [] with roots := roots.map WalkedRoot.script }

theorem rootOfX_sound (root : RootPath) (byte : UInt8) (time : BitVec 64) : (rootOfX root byte time).Sound where
  named := by
    intro x hx _
    rw [List.mem_singleton.mp hx]
    exact ⟨⟨List.cons_ne_nil _ _,show ∀ name ∈ ([[120]] : List Name),separator ∉ name by decide⟩,
      show pathBuildRelative [[120]] = some [120] by decide⟩
  once := List.nodup_singleton _
  readable := by
    intro v hv _
    rw [List.mem_singleton.mp hv]
    exact ⟨rfl,DiskFile.plain_reading _⟩

theorem rootOfX_scope (root : RootPath) (byte : UInt8) (time : BitVec 64) :
    InScope { update := true } (rootOfX root byte time).visits (.plain (.plain [120] 1 time) (.plain [byte])) :=
  ⟨List.mem_cons_self,rfl,rfl,rfl⟩

theorem rootsOfX_works : (rootsScript rootsOfX).Works := by
  refine ⟨rfl,(fun hno => by cases hno),?_,rfl,rfl,fun hno => by cases hno⟩
  intro root hroot
  rcases List.mem_pair.mp hroot with rfl | rfl
  · exact ⟨rfl,rfl,rfl,fun v hv => by rw [List.mem_singleton.mp hv]; exact Visit.plain_works _ _⟩
  · exact ⟨rfl,rfl,rfl,fun v hv => by rw [List.mem_singleton.mp hv]; exact Visit.plain_works _ _⟩

theorem rootsOfX_sound : ∀ r ∈ rootsOfX, r.Sound := by
  intro r hr
  rcases List.mem_pair.mp hr with rfl | rfl
  · exact rootOfX_sound _ _ _
  · exact rootOfX_sound _ _ _

theorem rootsOfX_constant : SameTrees rootsOfX := by
  intro r hr r' hr' hroots
  rcases List.mem_pair.mp hr with rfl | rfl
  · rcases List.mem_pair.mp hr' with rfl | rfl
    · rfl
    · exact absurd hroots (show ([47,97] : RootPath) ≠ [47,98] by decide)
  · rcases List.mem_pair.mp hr' with rfl | rfl
    · exact absurd hroots (show ([47,98] : RootPath) ≠ [47,97] by decide)
    · rfl

/-- A row of `x` with the size and the times of `/a/x`, and the digest of other bytes. -/
def tableOfX : FilesTable :=
  UniqueTable.upsert .empty [120] (recorded (.plain (.plain [120] 1 1) (.plain [7])) (some (sha512 [9])))

theorem files_apart_rootsOfX : FilesApart { update := true } rootsOfX (rootsScript rootsOfX) tableOfX [] ↔
    (∀ r ∈ rootsOfX, ∀ v, InScope { update := true } r.visits v → ∀ r' ∈ rootsOfX, ∀ v',
      InScope { update := true } r'.visits v' → v.entry.path = v'.entry.path → r.root = r'.root) ∧
    ∀ r ∈ rootsOfX, ∀ v, InScope { update := true } r.visits v →
      Owned { update := true } v (contents tableOfX v.entry.path) :=
  files_apart_iff ⟨rootsOfX_works,rfl,rootsOfX_sound,rootsOfX_constant,rfl,rfl,by decide +kernel,by decide +kernel⟩

theorem rootsOfX_completed : CompletedPass { update := true } rootsOfX (rootsScript rootsOfX) .empty [] :=
  ⟨rootsOfX_works,rfl,rootsOfX_sound,rootsOfX_constant,rfl,rfl,by decide +kernel,by decide +kernel⟩

/-- The files `x` of the two roots have one row. -/
theorem row_shared : CompletedPass { update := true } rootsOfX (rootsScript rootsOfX) .empty [] ∧
    (fileList { update := true } (rootsScript rootsOfX) (openSession .empty [])).session.table.keys = [[120]] ∧
    ¬ FilesApart { update := true } rootsOfX (rootsScript rootsOfX) .empty [] := by
  refine ⟨rootsOfX_completed,by decide +kernel,?_⟩
  rintro ⟨⟨-,hrows⟩,-⟩
  have hroots : ([47,97] : RootPath) ≠ [47,98] := by decide
  exact hrows _ List.mem_cons_self _ (rootOfX_scope _ _ _) _ (List.mem_cons_of_mem _ List.mem_cons_self) _
    (rootOfX_scope _ _ _) (.inl hroots) rfl

/-- With one root a row that agrees in size and times keeps the digest of the earlier bytes. -/
example : contents (fileList { update := true } (rootsScript [rootOfX [47,97] 7 1]) (openSession tableOfX [])).session.table
    [120] = contents tableOfX [120] := by decide +kernel

end Precizer.Guarantees

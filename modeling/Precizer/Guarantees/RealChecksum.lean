import Precizer.Pipeline.RunRules

/-! # Every stored digest is the digest of bytes that were read

The rows of a history remember what was read for them: a partial row the bytes its
context has absorbed, a complete one a message whose last part was read to the end. Only
a metadata update of a row without a digest breaks this: it stores the zeroed buffer.
-/
namespace Precizer.Guarantees
open General Rational Digest Database Traversal Pipeline

/-- The message was read from the path chunk after chunk, in the end up to its last byte. -/
def ReadToEnd (path : RelativePath) (log : List Event) (m : List UInt8) : Prop :=
  ReadFrom path log 0 m ∧ ∃ disk base bytes, m = base ++ bytes ∧
    .hashed path disk base.length bytes true ∈ log

/-- A digest comes from a message read to the end, a context from the bytes before its offset. -/
structure RealRow (path : RelativePath) (log : List Event) (columns : FileColumns) : Prop where
  digest : ∀ d, columns.sha512 = some d → ∃ m, ReadToEnd path log m ∧ d = sha512 m
  resume : ∀ k, columns.offset = some k → ∃ context m, columns.mdContext = some context ∧
    Streamed context m ∧ m.length = k ∧ ReadFrom path log 0 m

def RealRows (log : List Event) (t : FilesTable) : Prop :=
  ∀ path e, t.find path = some e → RealRow path log e.value

def RealChecksums (log : List Event) (t : FilesTable) : Prop :=
  ∀ path e d, t.find path = some e → e.value.sha512 = some d → ∃ m, ReadToEnd path log m ∧ d = sha512 m

/-- The visit saves nothing but new timestamps or blocks of a nonempty file. -/
def savesOnlyMetadata (c : Config) (v : Visit) (row : DBrow) : Bool :=
  !c.dryRun && !c.locked v.entry.path && v.access = .accessAllowed &&
    !(matchIncludeIgnore c false v.entry.path).ignored && v.save.statement = .done &&
    !emptyFile (decidedFile c v row) && unwatchedMetadataOnlyChanged c (decidedFile c v row)

/-- It does so for a row that has no digest. -/
def storesPlaceholder (c : Config) (v : Visit) (t : FilesTable) : Bool :=
  match t.find v.entry.path with
  | none => false
  | some e => e.value.sha512 = none && savesOnlyMetadata c v (DBrow.ofEntry e)

theorem ReadToEnd.extend {path : RelativePath} {log : List Event} {m : List UInt8}
    (h : ReadToEnd path log m) (extra : List Event) : ReadToEnd path (log ++ extra) m := by
  obtain ⟨hread,disk,base,bytes,hm,hlog⟩ := h
  exact ⟨hread.extend extra,disk,base,bytes,hm,List.mem_append_left _ hlog⟩

theorem RealRow.extend {path : RelativePath} {log : List Event} {columns : FileColumns}
    (h : RealRow path log columns) (extra : List Event) : RealRow path (log ++ extra) columns where
  digest := by
    intro d hd
    obtain ⟨m,hread,hm⟩ := h.digest d hd
    exact ⟨m,hread.extend extra,hm⟩
  resume := by
    intro k hk
    obtain ⟨context,m,hcontext,hstreamed,hlength,hread⟩ := h.resume k hk
    exact ⟨context,m,hcontext,hstreamed,hlength,hread.extend extra⟩

theorem realRows_stable : Store.Stable RealRows := by
  intro log event t h path e hfind
  exact (h path e hfind).extend [event]

theorem realRows_deletions (c : Config) : DeletionsKeep RealRows c := by
  intro access e start t log _ _ _ h path e' hfind
  exact h path e' (UniqueTable.find_erase_some.mp hfind).1

section SavePoint

variable {c : Config} {v : Visit} {p : Pass} {log : List Event}

theorem start_read (hrows : ∀ e, p.session.table.find v.entry.path = some e →
      RealRow v.entry.path log e.value) :
    ∃ base, base.length = (decidedFile c v (p.row v)).checksumOffset ∧ ReadFrom v.entry.path log 0 base ∧
      Streamed (preparedContext (decidedFile c v (p.row v))).mdContext base := by
  rcases decidedFile_start c v (p.row v) with ⟨hresume,hoffset,hcontext⟩ | ⟨-,hoffset⟩
  · simp only [canResumePartialHash,hasSavedOffset,decidedFile_db,Bool.and_eq_true,decide_eq_true_eq]
      at hresume
    have hpositive := hresume.1
    have hknown : (p.row v).relativePathWasInDbBeforeProcessing = true :=
      known_of_savedOffset (Nat.pos_iff_ne_zero.mp hpositive)
    obtain ⟨e,hfind⟩ := readRow_known_iff.mp hknown
    have hrow : p.row v = DBrow.ofEntry e := readRow_some hfind
    cases hstored : e.value.offset with
    | none =>
      rw [hrow] at hpositive
      simp [DBrow.ofEntry,hstored] at hpositive
    | some k =>
      obtain ⟨context,m,hctx,hstreamed,hlength,hread⟩ := (hrows e hfind).resume k hstored
      have hk : (p.row v).savedOffset = k := by
        rw [hrow]
        simp [DBrow.ofEntry,hstored]
      have hsaved : (p.row v).savedMdContext = context := by
        rw [hrow]
        simp [DBrow.ofEntry,hctx]
      refine ⟨m,by rw [hoffset,hk,hlength],hread,?_⟩
      rw [preparedContext,if_neg (by omega),hcontext,hsaved]
      exact hstreamed
  · refine ⟨[],hoffset.symm,.nothing,?_⟩
    rw [preparedContext,if_pos hoffset]
    exact .init _

theorem realRow_saved (hrows : ∀ e, p.session.table.find v.entry.path = some e →
      RealRow v.entry.path log e.value) (hdry : c.dryRun = false)
    (hreal : storesPlaceholder c v p.session.table = false) {columns : FileColumns}
    (hpoint : SavePoint c v (p.row v) log columns) : RealRow v.entry.path log columns := by
  obtain ⟨base,hlength,hread,hstreamed⟩ := start_read (c := c) hrows
  cases hpoint.columns with
  | empty _ _ _ _ => exact ⟨fun d hd => (by cases hd),fun k hk => (by cases hk)⟩
  | reused hempty hunwatched hunlocked hdone =>
    refine ⟨?_,fun k hk => (by cases hk)⟩
    rintro d ⟨⟩
    have hknown : (p.row v).relativePathWasInDbBeforeProcessing = true := by
      simp only [unwatchedMetadataOnlyChanged,decidedFile_db,Bool.and_eq_true] at hunwatched
      exact hunwatched.1.1.1.1.1
    obtain ⟨e,hfind⟩ := readRow_known_iff.mp hknown
    have hrow : p.row v = DBrow.ofEntry e := readRow_some hfind
    cases hstored : e.value.sha512 with
    | some d =>
      rw [hrow]
      simp only [DBrow.ofEntry,hstored,Option.getD_some]
      exact (hrows e hfind).digest d hstored
    | none =>
      have hmetadata : savesOnlyMetadata c v (p.row v) = true := by
        simp [savesOnlyMetadata,hdry,hunlocked,hpoint.ready.readable,hpoint.ready.visible hunlocked,hdone,
          hempty,hunwatched]
      rw [hrow] at hmetadata
      simp [storesPlaceholder,hfind,hstored,hmetadata] at hreal
  | wrongType _ _ _ _ _ _ _ _ => exact ⟨fun d hd => (by cases hd),fun k hk => (by cases hk)⟩
  | partway k context hrehash hruns habsorbs hreads hoffset hwhy =>
    refine ⟨fun d hd => (by cases hd),?_⟩
    rintro n ⟨⟩
    refine ⟨context,base ++ readBytes v (decidedFile c v (p.row v)) k,rfl,habsorbs.streamed hstreamed,?_,?_⟩
    · rw [List.length_append,hlength]
    · rw [← hlength] at hreads
      exact hread.append (by rwa [Nat.zero_add])
  | complete context digest hrehash hruns herrno habsorbs hfinal hreads hlog hsame =>
    refine ⟨?_,fun k hk => (by cases hk)⟩
    rintro d ⟨⟩
    obtain ⟨md,hfin⟩ := hfinal
    refine ⟨base ++ v.disk.delivered (decidedFile c v (p.row v)).checksumOffset,⟨?_,?_⟩,?_⟩
    · rw [← hlength] at hreads ⊢
      exact hread.append (by rwa [Nat.zero_add])
    · rw [← hlength] at hlog ⊢
      exact ⟨v.disk,base,_,rfl,hlog⟩
    · exact (habsorbs.streamed hstreamed).final hfin

end SavePoint

theorem realRows_keeps {c : Config} {v : Visit} {p : Pass}
    (hreal : storesPlaceholder c v p.session.table = false) (h : p.session.Always RealRows) :
    SavesKeep RealRows c v p := by
  rintro log columns t t' hdry ⟨extra,rfl⟩ hpoint ⟨⟨id,hrow⟩,hother⟩ hrows path e hfind
  by_cases hpath : path = v.entry.path
  · subst hpath
    rw [hrow] at hfind
    cases hfind
    exact realRow_saved (fun e he => (h.working _ e he).extend extra) hdry hreal hpoint
  · rw [hother path hpath] at hfind
    exact hrows path e hfind

/-- Runs in which no visit stores a placeholder. -/
def StoresDigests (r : RunScript) (t : FilesTable) (log : List Event) : Prop :=
  ∀ m ∈ runMet r (openSession t log), storesPlaceholder r.config m.1 m.2.session.table = false

/-- In every history of such runs from an empty table, and in every table one more of them
uses, a stored digest is that of a message read to the end. -/
theorem real_checksums {t : FilesTable} {log : List Event} (h : History StoresDigests .empty t log) :
    RealChecksums log t ∧ ∀ r, StoresDigests r t log → (runFrom r t log).session.Always RealChecksums := by
  have hrun : ∀ r t log, StoresDigests r t log → RealRows log t →
      (runFrom r t log).session.Always RealRows := by
    intro r t log hstores hrows
    exact runProgram_always realRows_stable (fun m hm => realRows_keeps (hstores m hm))
      (realRows_deletions r.config) (openSession_always hrows)
  have hrows : RealRows log t := by
    refine History.always (P := RealRows) ?_ hrun h
    intro path e hfind
    cases hfind
  have hchecksums : ∀ log t, RealRows log t → RealChecksums log t :=
    fun log t hrows path e d hfind hsha => (hrows path e hfind).digest d hsha
  exact ⟨hchecksums log t hrows,fun r hstores => (hrun r t log hstores hrows).mono hchecksums⟩

/-- A file that cannot be positioned is saved without a digest; later only its status change
time differs. -/
def unseekableRun : RunScript :=
  .plain { update := true }
    [.plain (.plain [97] 1 1) { DiskFile.plain [7] with seekable := fun _ => false }]
    fun _ => .accessAllowed

def unseekableSession : Session := (runFrom unseekableRun .empty []).session

theorem real_checksums_unseekable :
    RealChecksums unseekableSession.store.stamp unseekableSession.store.committed := by
  have hstores : StoresDigests unseekableRun .empty [] := by
    intro m hm
    obtain rfl := List.mem_singleton.mp hm
    rfl
  exact (real_checksums (.run .start unseekableRun hstores (List.mem_cons_self ..))).1

def touchedEntry : FtsEntry :=
  { FtsEntry.plain [97] 1 1 with statp := { (FtsEntry.plain [97] 1 1).statp with stCtim := ⟨2,0⟩ } }

def touchedRun : RunScript :=
  .plain { update := true } [.plain touchedEntry (.plain [7])] fun _ => .accessAllowed

def touchedSession : Session :=
  (runFrom touchedRun unseekableSession.store.committed unseekableSession.store.stamp).session

def readsToEnd : Event → Bool
  | .hashed _ _ _ _ toEnd => toEnd
  | _ => false

theorem placeholder_stored : ¬ ∀ (t : FilesTable) (log : List Event),
    History (fun _ _ _ => True) .empty t log → RealChecksums log t := by
  intro h
  have hfirst : History (fun _ _ _ => True) .empty unseekableSession.store.committed
      unseekableSession.store.stamp := .run .start unseekableRun trivial (List.mem_cons_self ..)
  have hsecond : History (fun _ _ _ => True) .empty touchedSession.store.committed
      touchedSession.store.stamp := .run hfirst touchedRun trivial (List.mem_cons_self ..)
  have hzero : (touchedSession.store.committed.find [97]).map (fun e => e.value.sha512) =
      some (some zeroDigest) := by decide +kernel
  obtain ⟨e,hfind,hsha⟩ := Option.map_eq_some_iff.mp hzero
  obtain ⟨m,⟨-,disk,base,bytes,-,hlog⟩,-⟩ := h _ _ hsecond [97] e zeroDigest hfind hsha
  have hnone : touchedSession.store.stamp.any readsToEnd = false := by decide +kernel
  have hany : touchedSession.store.stamp.any readsToEnd = true := List.any_eq_true.mpr ⟨_,hlog,rfl⟩
  rw [hnone] at hany
  cases hany

end Precizer.Guarantees

import Precizer.Traversal.FileOutcome
import Precizer.Database.SmoothSession

/-! # An undisturbed hash pass

Without an interrupt, and with statements that work, the reading loop either reaches the end
of what is delivered or stops at a chunk that the length check refuses. Checkpoints in
between touch the row of the path at most, and never that of a sealed locked file.
-/
namespace Precizer.Traversal
open General Rational Digest Database

/-- The path is built and every statement works; a message may be lost. -/
structure Visit.Works (v : Visit) : Prop where
  pathBuilt : v.pathBuilt = true
  lookup : v.lookup = .done
  batchCommit : v.batchCommit = .done
  save : v.save.Works
  remember : v.remember ≠ .rolledBack
  turns : ∀ start, ∀ t ∈ v.disk.turns start, t.save.Works ∧ t.commit = .done

/-- Besides, no interrupt arrives. -/
structure Visit.Smooth (v : Visit) : Prop extends v.Works where
  quiet : v.signal.arrival = none

theorem Visit.Works.signalled {v : Visit} (h : v.Works) (signal : Signal Moment) :
    Visit.Works { v with signal := signal } :=
  ⟨h.pathBuilt,h.lookup,h.batchCommit,h.save,h.remember,h.turns⟩

/-- What the printed lines and the tests of a record read, once its hashing has ended. -/
def File.shown (f : File) : File :=
  { f with
    db := { f.db with ID := 0 }
    mdContext := zeroContext
    checksumOffset := 0
    sha512 := zeroDigest }

theorem shown_of_frame {f f' : File} (hframe : f'.frame = f.frame) (hread : f'.readError = f.readError)
    (herrno : f'.readErrno = f.readErrno) (htype : f'.wrongFileType = f.wrongFileType) : f'.shown = f.shown := by
  have hshown (f : File) : f.shown = { f.frame with
      readError := f.readError, readErrno := f.readErrno, wrongFileType := f.wrongFileType } := rfl
  rw [hshown,hshown,hframe,hread,herrno,htype]

theorem shown_congr {α : Type*} (q : File → α) (hq : ∀ f : File, q f.shown = q f) {f f' : File}
    (h : f'.shown = f.shown) : q f' = q f := by
  rw [← hq f',h,hq f]

/-- Two records that differ in their identifiers, and in a context that is not stored, only. -/
structure File.Alike (f f' : File) : Prop where
  shown : f'.shown = f.shown
  offset : f'.checksumOffset = f.checksumOffset
  sha512 : f'.sha512 = f.sha512
  context : f.checksumOffset ≠ 0 → f'.mdContext = f.mdContext

theorem Absorbs.damaged {md md' : SHA512Context} {m : List UInt8} (h : Absorbs md m md')
    (hout : ¬ md.curlen < 128) : m = [] ∧ md' = md := by
  induction h with
  | refl => exact ⟨rfl,rfl⟩
  | step h hupd ih =>
    rw [ih.2] at hupd
    exact absurd hupd (update_damaged hout)

theorem Absorbs.continues {md md' : SHA512Context} {m : List UInt8} (h : Absorbs md m md')
    (hin : md.curlen < 128) : Continues md md' m := by
  induction h with
  | refl => exact .refl hin
  | step h hupd ih => exact update_continues ih hupd

theorem Absorbs.digest {md md' : SHA512Context} {m : List UInt8} (h : Absorbs md m md') :
    sha512From md m = md'.digest := by
  by_cases hin : md.curlen < 128
  · exact (h.continues hin).digest
  · rw [(h.damaged hin).2,sha512From_damaged hin,digest_damaged hin]

theorem Absorbs.refused {md md' : SHA512Context} {m piece : List UInt8} (h : Absorbs md m md')
    (hupd : ∀ md'', sha512Update md' piece ≠ (.cryptOk,md'')) (rest : List UInt8) :
    sha512From md (m ++ (piece ++ rest)) = none := by
  by_cases hin : md.curlen < 128
  · exact (h.continues hin).refused hupd rest
  · exact sha512From_damaged hin

/-- Once anything was absorbed the bit counter holds all of it. -/
theorem Absorbs.fits {md md' : SHA512Context} {m : List UInt8} (h : Absorbs md m md') (hne : m ≠ []) :
    md.curlen < 128 ∧ md.Fits m.length := by
  have hin : md.curlen < 128 := by
    by_contra hout
    exact hne (h.damaged hout).1
  refine ⟨hin,?_⟩
  cases h with
  | refl => exact absurd rfl hne
  | step h hupd =>
    rw [List.length_append]
    exact (check_continues (h.continues hin) _).mp (update_ok hupd).1

/-- A later state of an undisturbed loop. -/
structure HashGoes (c : Config) (path : RelativePath) (h h' : HashState) (m : List UInt8) : Prop where
  status : h'.status = successStatus
  ext : HashState.Extends path h h' m
  synced : Synced h'.session
  reports : h'.session.reports = h.session.reports
  linked : c.dryRun = false → Linked path h'.file h'.pathKnown h'.session.table
  others : ∀ k, k ≠ path → contents h'.session.table k = contents h.session.table k
  grows : Grows path h.session.table h'.session.table
  table : c.dryRun = true ∨ lockChecksumReady h.file = true → h'.session.table = h.session.table

section Loop

variable {c : Config} {v : Visit} {path : RelativePath} {n : ℕ} {t : Turn} {h h' h'' : HashState}
  {m m' : List UInt8}

theorem HashGoes.trans (a : HashGoes c path h h' m) (b : HashGoes c path h' h'' m') :
    HashGoes c path h h'' (m ++ m') where
  status := b.status
  ext := a.ext.trans b.ext
  synced := b.synced
  reports := b.reports.trans a.reports
  linked := b.linked
  others := fun k hk => (b.others k hk).trans (a.others k hk)
  grows := a.grows.trans b.grows
  table := by
    intro hkept
    have hready : lockChecksumReady h'.file = lockChecksumReady h.file :=
      frame_congr lockChecksumReady (fun _ => rfl) a.ext.frame
    rw [b.table (by rwa [hready]),a.table hkept]

theorem contents_saved {file : File} {pathKnown : Bool} {t t' : FilesTable}
    (hlink : Linked path file pathKnown t) (hsaved : SavedTable path file pathKnown t t') :
    contents t' path = some (boundColumns file) ∧ ∀ k, k ≠ path → contents t' k = contents t k := by
  obtain ⟨⟨id,hfind⟩,hothers⟩ := find_saved hlink hsaved
  refine ⟨?_,fun k hk => ?_⟩
  · rw [contents,hfind]
    rfl
  · rw [contents,hothers k hk,contents]

/-- The state of the loop before a step: a success with its session in order. -/
structure HashReady (c : Config) (path : RelativePath) (h : HashState) : Prop where
  status : h.status = successStatus
  synced : Synced h.session
  linked : c.dryRun = false → Linked path h.file h.pathKnown h.session.table

theorem HashGoes.ready (a : HashGoes c path h h' m) : HashReady c path h' := ⟨a.status,a.synced,a.linked⟩

theorem HashReady.refl (a : HashReady c path h) : HashGoes c path h h [] :=
  ⟨a.status,.refl h,a.synced,rfl,a.linked,fun _ _ => rfl,.inl rfl,fun _ => rfl⟩

theorem absorbed_goes (a : HashReady c path h) {md : SHA512Context} {piece : List UInt8}
    (hupd : sha512Update h.file.mdContext piece = (.cryptOk,md)) :
    HashGoes c path h (h.absorbed path md piece) piece where
  status := a.status
  ext := HashState.absorbed_extends hupd
  synced := a.synced
  reports := (Session.emit_reports _ _).trans (List.append_nil _)
  linked := fun hdry => linked_transfer (a.linked hdry) rfl rfl rfl
  others := fun _ _ => rfl
  grows := .inl rfl
  table := fun _ => rfl

theorem checkpointSave_goes (hv : v.signal.arrival = none) (ht : t.save.Works) (a : HashReady c path h) :
    HashGoes c path h (h.checkpointSave c v path n t) [] := by
  have hext := HashState.checkpointSave_extends c v path n t h
  unfold HashState.checkpointSave at hext ⊢
  rw [Signal.halted_none hv] at hext ⊢
  by_cases hallowed : periodicHashCheckpointIsAllowed c h.file = true
  · rw [if_pos hallowed] at hext ⊢
    have hdry : c.dryRun = false := by
      cases hd : c.dryRun with
      | false => rfl
      | true => simp [periodicHashCheckpointIsAllowed,hd] at hallowed
    have hfree : lockChecksumReady h.file = false := by
      unfold periodicHashCheckpointIsAllowed at hallowed
      simp only [hdry,Bool.false_eq_true,↓reduceIte] at hallowed
      split at hallowed
      · cases hallowed
      · split at hallowed
        · cases hallowed
        · rename_i hno
          simpa [lockChecksumReady,hasSavedOffset,Nat.pos_iff_ne_zero] using hno
    have hworks := save_works false a.synced ht a.linked
    obtain ⟨hstatus,hsynced,hreports⟩ := hworks
    have hok : (dbSaveFileRecord c false t.save path h.file h.pathKnown false h.session).status.success = true := by
      rw [hstatus]
      rfl
    have hsaved := (save_success hdry rfl hok).1
    refine ⟨hstatus,hext,hsynced,hreports,fun _ => linked_save hdry rfl hok (a.linked hdry),?_,
      grows_saved hsaved,?_⟩
    · exact (contents_saved (a.linked hdry) hsaved).2
    · rintro (hno | hno)
      · rw [hdry] at hno
        cases hno
      · rw [hfree] at hno
        cases hno
  · rw [if_neg hallowed]
    exact a.refl

theorem checkpointCommit_goes (hv : v.signal.arrival = none) (ht : t.commit = .done) (a : HashReady c path h) :
    HashGoes c path h (h.checkpointCommit v n t) [] := by
  have hext := HashState.checkpointCommit_extends v path n t h
  unfold HashState.checkpointCommit at hext ⊢
  dsimp only at hext ⊢
  rw [Signal.halted_none hv,ht,a.status] at hext ⊢
  obtain ⟨s',hcommit,hmoved,-⟩ := commit_works a.synced
  rw [hcommit] at hext ⊢
  dsimp only at hext ⊢
  exact {
    status := (show call (globalReturnStatus false) successStatus successStatus = successStatus by decide)
    ext := hext
    synced := hmoved.synced
    reports := hmoved.reports
    linked := fun hdry => linked_transfer (a.linked hdry) rfl rfl hmoved.table
    others := fun k _ => by rw [hmoved.table]
    grows := .inl (congrArg UniqueTable.keys hmoved.table)
    table := fun _ => hmoved.table }

/-- A chunk is refused by the length check, or absorbed with its checkpoint. -/
theorem hashTurn_smooth (hv : v.signal.arrival = none) (ht : t.save.Works ∧ t.commit = .done)
    (a : HashReady c path h) :
    ((∀ md, sha512Update h.file.mdContext t.bytes ≠ (.cryptOk,md)) ∧
      hashTurn c v path n t h = ({ h with status := failureStatus },true)) ∨
    ∃ h', hashTurn c v path n t h = (h',false) ∧ HashGoes c path h h' t.bytes := by
  cases hupd : sha512Update h.file.mdContext t.bytes with
  | mk status md =>
    by_cases hok : status = .cryptOk
    · right
      subst hok
      have habsorbed := absorbed_goes a hupd
      have hsaved := habsorbed.trans (checkpointSave_goes (n := n) hv ht.1 habsorbed.ready)
      have hcommitted := hsaved.trans (checkpointCommit_goes (n := n) hv ht.2 hsaved.ready)
      simp only [List.append_nil] at hsaved hcommitted
      unfold hashTurn
      rw [if_pos a.status,hupd]
      dsimp only
      split
      · rw [hsaved.status,if_neg (by decide),hcommitted.status,if_neg (by decide)]
        refine ⟨_,rfl,?_⟩
        exact ⟨rfl,hcommitted.ext.restatus _ _,hcommitted.synced,hcommitted.reports,
          hcommitted.linked,hcommitted.others,hcommitted.grows,hcommitted.table⟩
      · exact ⟨_,rfl,habsorbed⟩
    · left
      refine ⟨?_,?_⟩
      · intro md' hsame
        exact hok (Prod.mk.inj hsame).1
      · unfold hashTurn
        rw [if_pos a.status,hupd]
        cases status with
        | cryptOk => exact absurd rfl hok
        | cryptInvalidArg => rfl
        | cryptHashOverflow => rfl

/-- How an undisturbed loop ends: after everything delivered, or at a refused chunk. -/
inductive LoopEnd (c : Config) (path : RelativePath) (readErrno : Option ℕ) (turns : List Turn)
    (h result : HashState) : Prop
  | complete (last : HashState) (goes : HashGoes c path h last (turns.flatMap Turn.bytes))
      (hresult : result = last.readEnd readErrno)
  | refused (last : HashState) (m piece rest : List UInt8) (goes : HashGoes c path h last m)
      (hsplit : turns.flatMap Turn.bytes = m ++ (piece ++ rest)) (hturns : turns ≠ [])
      (hupd : ∀ md, sha512Update last.file.mdContext piece ≠ (.cryptOk,md))
      (hresult : result = { last with status := failureStatus })

theorem hashLoop_smooth (hv : v.signal.arrival = none) (readErrno : Option ℕ) (turns : List Turn)
    (ht : ∀ t ∈ turns, t.save.Works ∧ t.commit = .done) (n : ℕ) (a : HashReady c path h) :
    LoopEnd c path readErrno turns h (hashLoop c v path readErrno n turns h) := by
  induction turns generalizing n h with
  | nil =>
    refine .complete h a.refl ?_
    unfold hashLoop
    rw [Signal.raised_none hv]
    rfl
  | cons t rest ih =>
    have hstep : hashLoop c v path readErrno n (t :: rest) h =
        if (hashTurn c v path n t h).2 then (hashTurn c v path n t h).1
        else hashLoop c v path readErrno (n + 1) rest (hashTurn c v path n t h).1 := by
      rw [hashLoop,Signal.raised_none hv]
      rfl
    rw [hstep]
    rcases hashTurn_smooth hv (ht t List.mem_cons_self) a with ⟨hupd,hturn⟩ | ⟨h',hturn,hgoes⟩
    · rw [hturn]
      refine .refused h [] t.bytes (rest.flatMap Turn.bytes) a.refl ?_ (List.cons_ne_nil _ _) hupd rfl
      rw [List.flatMap_cons,List.nil_append]
    · rw [hturn]
      simp only [Bool.false_eq_true,↓reduceIte]
      cases ih (fun t ht' => ht t (List.mem_cons_of_mem _ ht')) (n + 1) hgoes.ready with
      | complete last hlast hresult =>
        refine .complete last ?_ hresult
        rw [List.flatMap_cons]
        exact hgoes.trans hlast
      | refused last m piece rest' hlast hsplit hturns hupd hresult =>
        refine .refused last (t.bytes ++ m) piece rest' (hgoes.trans hlast) ?_ (List.cons_ne_nil _ _) hupd
          hresult
        rw [List.flatMap_cons,hsplit,List.append_assoc]

end Loop

/-- An undisturbed hash pass has come to the given record, or has failed. -/
structure HashEnds (c : Config) (v : Visit) (path : RelativePath) (file : File) (s : Session)
    (done : File × Bool) (r : HashResult) : Prop where
  synced : Synced r.session
  reports : r.session.reports = s.reports
  others : ∀ k, k ≠ path → contents r.session.table k = contents s.table k
  grows : Grows path s.table r.session.table
  table : c.dryRun = true ∨ lockChecksumReady file = true ∨ ¬ HashRuns c v file → r.session.table = s.table
  shown : r.file.shown = done.1.shown
  failed : done.2 = true → r.status = failureStatus
  succeeded : done.2 = false → r.status = successStatus ∧ done.1.Alike r.file ∧
    (c.dryRun = false → Linked path r.file r.pathKnown r.session.table)

theorem File.Alike.refl (f : File) : f.Alike f := ⟨rfl,rfl,rfl,fun _ => rfl⟩

theorem preparedContext_shown (file : File) : (preparedContext file).shown = file.shown := by
  unfold preparedContext
  split <;> rfl

theorem finalise_digest {h : HashState} (hstatus : h.status = successStatus) (hloop : h.loopWasInterrupted = false) :
    match h.file.mdContext.digest with
    | some digest => ∃ md, h.finalise = { h with
        file := { h.file with checksumOffset := 0, mdContext := md, sha512 := digest } }
    | none => ∃ md, h.finalise = { h with
        file := { h.file with checksumOffset := 0, mdContext := md }, status := failureStatus } := by
  unfold HashState.finalise SHA512Context.digest
  rw [if_pos ⟨hstatus,hloop⟩]
  cases hfin : sha512Final h.file.mdContext with
  | mk status rest =>
    obtain ⟨md,digest⟩ := rest
    cases status with
    | cryptOk => exact ⟨md,rfl⟩
    | cryptInvalidArg => exact ⟨md,rfl⟩
    | cryptHashOverflow => exact ⟨md,rfl⟩

section Pass

variable {c : Config} {v : Visit} {path : RelativePath} {file : File} {pathKnown : Bool} {s : Session}

/-- What the reading leaves untouched of the record. -/
theorem started_shown {last : HashState} {m : List UInt8}
    (hgoes : HashGoes c path (hashStart v file pathKnown s) last m) :
    last.file.shown = file.shown ∧ last.loopWasInterrupted = false := by
  have hflags := hgoes.ext.flags
  simp only [HashState.flags,hashStart,Prod.mk.injEq] at hflags
  obtain ⟨hloop,-,hread,herrno,htype,-⟩ := hflags
  have hstart : (preparedContext file).readError = file.readError ∧
      (preparedContext file).readErrno = file.readErrno ∧
      (preparedContext file).wrongFileType = file.wrongFileType := by
    unfold preparedContext
    split <;> exact ⟨rfl,rfl,rfl⟩
  exact ⟨shown_of_frame (hgoes.ext.frame.trans (preparedContext_frame file)) (hread.trans hstart.1)
    (herrno.trans hstart.2.1) (htype.trans hstart.2.2),hloop⟩

theorem readEnd_shown {last : HashState} (h : last.file.shown = file.shown) :
    (last.readEnd (v.disk.readErrno file.checksumOffset)).file.shown = (readRecord v file).shown := by
  unfold HashState.readEnd readRecord
  cases v.disk.readErrno file.checksumOffset with
  | none => exact h
  | some errno =>
    have hwith (f : File) : ({ f with readError := true, readErrno := errno } : File).shown =
        { f.shown with readError := true, readErrno := errno } := rfl
    dsimp only
    rw [hwith,hwith,h]

theorem readEnd_same (last : HashState) (readErrno : Option ℕ) :
    (last.readEnd readErrno).session = last.session ∧ (last.readEnd readErrno).pathKnown = last.pathKnown ∧
      (last.readEnd readErrno).status = last.status ∧
      (last.readEnd readErrno).loopWasInterrupted = last.loopWasInterrupted ∧
      (last.readEnd readErrno).file.mdContext = last.file.mdContext ∧
      (last.readEnd readErrno).file.db.ID = last.file.db.ID := by
  cases readErrno <;> exact ⟨rfl,rfl,rfl,rfl,rfl,rfl⟩

/-- A pass that reads nothing changes the record only. -/
theorem hashEnds_unread (hs : Synced s) (hlink : c.dryRun = false → Linked path file pathKnown s.table)
    (f : File) (hid : f.db.ID = file.db.ID) :
    HashEnds c v path file s (f,false) ⟨leave false true,s,f,pathKnown⟩ where
  synced := hs
  reports := rfl
  others := fun _ _ => rfl
  grows := .inl rfl
  table := fun _ => rfl
  shown := rfl
  failed := fun hno => by cases hno
  succeeded := fun _ => ⟨rfl,.refl _,fun hdry => linked_transfer (hlink hdry) hid rfl rfl⟩

theorem hashEnds_session {last : HashState} {m : List UInt8} {e : Event} (he : e.report? = none)
    (hgoes : HashGoes c path (hashStart v file pathKnown s) last m) :
    Synced (last.session.emit e) ∧ (last.session.emit e).reports = s.reports ∧
      (∀ k, k ≠ path → contents (last.session.emit e).table k = contents s.table k) ∧
      Grows path s.table (last.session.emit e).table ∧
      (c.dryRun = true ∨ lockChecksumReady file = true → (last.session.emit e).table = s.table) := by
  have hsealed : lockChecksumReady (hashStart v file pathKnown s).file = lockChecksumReady file :=
    frame_congr lockChecksumReady (fun _ => rfl) (preparedContext_frame file)
  refine ⟨hgoes.synced,?_,hgoes.others,hgoes.grows,fun hkept => hgoes.table (by rwa [hsealed])⟩
  rw [Session.emit_reports,he]
  exact (List.append_nil _).trans hgoes.reports

theorem kept_of_runs {t t' : FilesTable} (hruns : HashRuns c v file)
    (h : c.dryRun = true ∨ lockChecksumReady file = true → t' = t) :
    c.dryRun = true ∨ lockChecksumReady file = true ∨ ¬ HashRuns c v file → t' = t := by
  rintro (hdry | hsealed | hno)
  · exact h (.inl hdry)
  · exact h (.inr hsealed)
  · exact absurd hruns hno

/-- The pass has read everything delivered. -/
theorem hashEnds_complete (hruns : HashRuns c v file) {last : HashState} {e : Event} (he : e.report? = none)
    (hgoes : HashGoes c path (hashStart v file pathKnown s) last (v.disk.delivered file.checksumOffset)) :
    let ended := (last.readEnd (v.disk.readErrno file.checksumOffset)).finalise
    HashEnds c v path file s
      (match sha512From (preparedContext file).mdContext (v.disk.delivered file.checksumOffset) with
      | some digest => ({ readRecord v file with checksumOffset := 0, sha512 := digest },false)
      | none => (if v.disk.turns file.checksumOffset = [] then readRecord v file else file,true))
      ⟨provide (globalReturnStatus false) ended.status,
        (last.readEnd (v.disk.readErrno file.checksumOffset)).session.emit e,ended.file,ended.pathKnown⟩ := by
  obtain ⟨hunread,hloop⟩ := started_shown hgoes
  have hshown := readEnd_shown (v := v) hunread
  obtain ⟨hsession,hknown,hstatus,hinterrupted,hcontext,hid⟩ :=
    readEnd_same last (v.disk.readErrno file.checksumOffset)
  obtain ⟨hsynced,hreports,hothers,hgrows,htable⟩ := hashEnds_session he hgoes
  have htable := kept_of_runs hruns htable
  have hdigest : sha512From (preparedContext file).mdContext (v.disk.delivered file.checksumOffset) =
      last.file.mdContext.digest := hgoes.ext.absorbs.digest
  have hfinal := finalise_digest (hstatus.trans hgoes.status) (hinterrupted.trans hloop)
  rw [hcontext] at hfinal
  dsimp only
  rw [hdigest,hsession]
  generalize last.readEnd (v.disk.readErrno file.checksumOffset) = ended at *
  cases hend : last.file.mdContext.digest with
  | some digest =>
    rw [hend] at hfinal
    obtain ⟨md,hfinal⟩ := hfinal
    rw [hfinal]
    have hpure (f : File) : ({ f with checksumOffset := 0, sha512 := digest } : File).shown = f.shown := rfl
    have hreal (f : File) : ({ f with checksumOffset := 0, mdContext := md, sha512 := digest } : File).shown =
        f.shown := rfl
    have halike : ({ readRecord v file with checksumOffset := 0, sha512 := digest } : File).Alike
        { ended.file with checksumOffset := 0, mdContext := md, sha512 := digest } :=
      ⟨by rw [hpure,hreal,hshown],rfl,rfl,fun hno => absurd rfl hno⟩
    refine ⟨hsynced,hreports,hothers,hgrows,htable,halike.shown,(fun hno => by cases hno),fun _ => ⟨?_,halike,?_⟩⟩
    · dsimp only
      rw [hstatus,hgoes.status]
      decide
    · exact fun hdry => linked_transfer (hgoes.linked hdry) hid hknown rfl
  | none =>
    rw [hend] at hfinal
    obtain ⟨md,hfinal⟩ := hfinal
    rw [hfinal]
    have hempty : v.disk.turns file.checksumOffset = [] := by
      cases hturns : v.disk.turns file.checksumOffset with
      | nil => rfl
      | cons t rest =>
        have hne : v.disk.delivered file.checksumOffset ≠ [] := by
          rw [DiskFile.delivered,hturns,List.flatMap_cons]
          simp [t.nonempty]
        obtain ⟨hin,hfits⟩ := hgoes.ext.absorbs.fits hne
        obtain ⟨digest,hsome⟩ := (hgoes.ext.absorbs.continues hin).digest_isSome hfits
        rw [hend] at hsome
        cases hsome
    refine ⟨hsynced,hreports,hothers,hgrows,htable,?_,(fun _ => rfl),fun hno => by cases hno⟩
    dsimp only
    rw [if_pos hempty]
    exact hshown

/-- An undisturbed hash pass comes to the record its pure counterpart computes. -/
theorem sha512sum_smooth (hv : v.Smooth) (hs : Synced s)
    (hlink : c.dryRun = false → Linked path file pathKnown s.table) :
    HashEnds c v path file s (hashPass c v file) (sha512sum c v path file pathKnown s) := by
  unfold sha512sum hashPass
  rw [Signal.halted_none hv.quiet]
  cases hopen : v.disk.openErrno with
  | some errno => exact hashEnds_unread hs hlink _ rfl
  | none =>
    dsimp only
    by_cases hseek : v.disk.seekable file.checksumOffset = true
    · rw [if_pos hseek,if_pos hseek]
      by_cases hperform : performFileHashing c = true
      · rw [if_pos hperform,if_pos hperform]
        have hruns : HashRuns c v file := ⟨hopen,hseek,hperform⟩
        have hready : HashReady c path (hashStart v file pathKnown s) :=
          ⟨rfl,hs,fun hdry => linked_transfer (hlink hdry) (preparedContext_ID file) rfl rfl⟩
        cases hashLoop_smooth hv.quiet (v.disk.readErrno file.checksumOffset) (v.disk.turns file.checksumOffset)
          (hv.turns file.checksumOffset) 0 hready with
        | complete last hgoes hresult =>
          rw [hresult]
          exact hashEnds_complete hruns rfl hgoes
        | refused last m piece rest hgoes hsplit hturns hupd hresult =>
          obtain ⟨hsynced,hreports,hothers,hgrows,htable⟩ := hashEnds_session (e := .hashed path v.disk
            file.checksumOffset last.bytes last.atEnd) rfl hgoes
          have hnone : sha512From (preparedContext file).mdContext (v.disk.delivered file.checksumOffset) = none := by
            rw [DiskFile.delivered,hsplit]
            exact hgoes.ext.absorbs.refused hupd rest
          have hstopped : ({ last with status := failureStatus } : HashState).finalise =
              { last with status := failureStatus } := by
            unfold HashState.finalise
            rw [if_neg (by rintro ⟨hno,-⟩; cases hno)]
          rw [hresult,hstopped,hnone]
          refine ⟨hsynced,hreports,hothers,hgrows,kept_of_runs hruns htable,?_,(fun _ => rfl),fun hno => by cases hno⟩
          dsimp only
          rw [if_neg hturns]
          exact (started_shown hgoes).1
      · rw [if_neg hperform,if_neg hperform]
        exact hashEnds_unread hs hlink _ (preparedContext_ID file)
    · rw [if_neg hseek,if_neg hseek]
      exact hashEnds_unread hs hlink _ rfl

end Pass

end Precizer.Traversal

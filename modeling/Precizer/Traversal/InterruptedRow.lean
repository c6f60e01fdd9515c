import Precizer.Traversal.OutcomeRules
import Precizer.Traversal.FileWrites

/-! # Rows between interrupted visits

Visits of a constant file that are cut short leave its row in one of three states: as it
was, partway through the hash that was started, or complete. From each of them an
undisturbed visit ends with the same columns.
-/
namespace Precizer.Traversal
open General Rational Digest Database

variable {c : Config} {v : Visit}

/-- The columns after the bytes of a started hash up to some point. -/
def partwayColumns (v : Visit) (offset : ℕ) (context : SHA512Context) : FileColumns :=
  ⟨some offset,none,some (statCopy v.entry.statp).toBytes,some context⟩

inductive Reached (c : Config) (v : Visit) (start : Option FileColumns) : Option FileColumns → Prop where
  | initial : Reached c v start start
  | partway (context : SHA512Context) (m : List UInt8) (hready : Ready c v (storedRow start))
      (hrehash : (decidedFile c v (storedRow start)).rehash = true)
      (hfree : lockChecksumReady (decidedFile c v (storedRow start)) = false)
      (habsorbs : Absorbs (preparedContext (decidedFile c v (storedRow start))).mdContext m context)
      (hpiece : m <+: v.disk.content.drop (decidedFile c v (storedRow start)).checksumOffset)
      (hoffset : (decidedFile c v (storedRow start)).checksumOffset + m.length ≠ 0) :
      Reached c v start (some (partwayColumns v
        ((decidedFile c v (storedRow start)).checksumOffset + m.length) context))
  | done (digest : Option Sha512Digest) (h : (fileOutcome c v start).columns = some (recorded v digest)) :
      Reached c v start (some (recorded v digest))

/-- The contents of the row after an undisturbed visit. -/
def afterVisit (c : Config) (v : Visit) (stored : Option FileColumns) : Option FileColumns :=
  ((fileOutcome c v stored).columns).or stored

theorem Absorbs.resumes {md md' : SHA512Context} {m : List UInt8} (h : Absorbs md m md') (m' : List UInt8) :
    sha512From md' m' = sha512From md (m ++ m') := by
  by_cases hlt : md.curlen < 128
  · exact (h.continues hlt).resume m'
  · obtain ⟨rfl,rfl⟩ := h.damaged hlt
    rfl

section Resume

variable {offset : ℕ} (context : SHA512Context)

theorem partway_decided (hoffset : offset ≠ 0) :
    let row := storedRow (some (partwayColumns v offset context))
    canResumePartialHash (decidedFile c v row) = true ∧ (decidedFile c v row).checksumOffset = offset ∧
      (preparedContext (decidedFile c v row)).mdContext = context ∧
      lockChecksumReady (decidedFile c v row) = false := by
  dsimp only
  have hidentical := identical_of_stat (c := c) (v := v) (partwayColumns v offset context) rfl
  have hsaved : hasSavedOffset (decidedFile c v (storedRow (some (partwayColumns v offset context)))) = true := by
    rw [hasSavedOffset,decidedFile_db]
    exact decide_eq_true (Nat.pos_of_ne_zero hoffset)
  have hresume : canResumePartialHash (decidedFile c v (storedRow (some (partwayColumns v offset context)))) = true := by
    rw [canResumePartialHash,hsaved,hidentical]
    rfl
  rcases decidedFile_start c v (storedRow (some (partwayColumns v offset context))) with
    ⟨-,hstart,hcontext⟩ | ⟨hno,-⟩
  · have hstart : (decidedFile c v (storedRow (some (partwayColumns v offset context)))).checksumOffset = offset := hstart
    refine ⟨hresume,hstart,?_,?_⟩
    · rw [preparedContext,if_neg (by rw [hstart]; exact hoffset),hcontext]
      rfl
    · rw [lockChecksumReady,hsaved]
      simp
  · rw [hresume] at hno
    cases hno

/-- A row partway through a hash is taken up again by the next visit. -/
theorem partway_ready {start : Option FileColumns} (hready : Ready c v (storedRow start))
    (hrehash : (decidedFile c v (storedRow start)).rehash = true) (hoffset : offset ≠ 0) :
    let row := storedRow (some (partwayColumns v offset context))
    Ready c v row ∧ (decidedFile c v row).rehash = true := by
  dsimp only
  obtain ⟨hresume,-,-,hfree⟩ := partway_decided (c := c) (v := v) context hoffset
  simp only [canResumePartialHash,Bool.and_eq_true] at hresume
  obtain ⟨hsaved,hidentical⟩ := hresume
  have hempty : emptyFile (decidedFile c v (storedRow start)) = false := by
    have hdecided : (decidedFile c v (storedRow start)).rehash =
      if emptyFile (metFile c v (storedRow start)) then false
        else rehashDecision c (metFile c v (storedRow start)) := rfl
    have hsame : emptyFile (decidedFile c v (storedRow start)) = emptyFile (metFile c v (storedRow start)) := rfl
    rw [hsame]
    cases hempty : emptyFile (metFile c v (storedRow start)) with
    | false => rfl
    | true => simp [hdecided,hempty] at hrehash
  have haccessed (row : DBrow) : (accessedFile c v row).isReadable = (accessedFile c v (storedRow start)).isReadable ∧
      (accessedFile c v row).ignore = (accessedFile c v (storedRow start)).ignore := by
    have hignore : (loadedFile c row v.entry.path).ignore =
        (loadedFile c (storedRow start) v.entry.path).ignore := rfl
    unfold accessedFile
    rw [hignore]
    split <;> exact ⟨rfl,rfl⟩
  generalize hrow : storedRow (some (partwayColumns v offset context)) = row at *
  have hprocess := hready.process
  simp only [shouldProcess,Bool.and_eq_true,Bool.not_eq_true'] at hprocess
  refine ⟨⟨?_,?_,?_⟩,?_⟩
  · have hreadable : (decidedFile c v row).isReadable = true := (haccessed row).1.trans hprocess.1.1
    have hignore : (decidedFile c v row).ignore = false := (haccessed row).2.trans hprocess.1.2
    have hviolation : (decidedFile c v row).lockChecksumViolation = lockViolation c (decidedFile c v row) := rfl
    rw [shouldProcess,hreadable,hignore,hviolation,lockViolation,hfree]
    rfl
  · rw [leavesUnchanged,unchangedAndComplete,hsaved]
    simp
  · rw [lockedTimestampDriftOnly,hfree]
    rfl
  · have hdecided : (decidedFile c v row).rehash = if emptyFile (decidedFile c v row) then false
      else rehashDecision c (decidedFile c v row) := rfl
    have hsame : emptyFile (decidedFile c v row) = emptyFile (decidedFile c v (storedRow start)) := rfl
    rw [hdecided,hsame,hempty,rehashDecision,hfree,unwatchedMetadataOnlyChanged,hidentical]
    simp

end Resume

theorem columns_success {stored : Option FileColumns} {columns : FileColumns}
    (h : (fileOutcome c v stored).columns = some columns) : (fileOutcome c v stored).failed = false ∧
      (fileOutcome c v stored).violation = false := by
  have hsettled (path : RelativePath) (failed : Bool) (file : File)
      (h : (settledOutcome c path failed file).columns = some columns) :
      (settledOutcome c path failed file).failed = false ∧ (settledOutcome c path failed file).violation = false := by
    unfold settledOutcome at h ⊢
    dsimp only at h ⊢
    split at h
    · cases h
    · split at h
      · cases h
      · rename_i hopen hupdate
        rw [if_neg hopen,if_neg hupdate]
        exact ⟨rfl,rfl⟩
  unfold fileOutcome at h ⊢
  dsimp only at h ⊢
  split at h
  · cases h
  · rename_i hpatterns
    rw [if_neg hpatterns]
    split at h
    · cases h
    · rename_i havailable
      rw [if_neg havailable]
      split at h
      · cases h
      · rename_i hchanged
        rw [if_neg hchanged]
        unfold processedOutcome at h ⊢
        dsimp only at h ⊢
        split at h
        · rename_i hprocess
          rw [if_pos hprocess]
          split at h
          · rename_i hrehash
            rw [if_pos hrehash]
            exact hsettled _ _ _ h
          · rename_i hrehash
            rw [if_neg hrehash]
            exact hsettled _ _ _ h
        · rename_i hprocess
          rw [if_neg hprocess]
          exact hsettled _ _ _ h

section Steps

variable {start stored : Option FileColumns}

/-- Every state an interrupted visit leaves leads to the same end as the first one. -/
theorem Reached.outcome (h : Reached c v start stored) (hconstant : v.disk.reading.Constant)
    (haccess : v.access = .accessAllowed) (hperform : performFileHashing c = true) (hrehash : c.rehashLocked = false)
    (hpatterns : patternsMatch c v.entry.path = true) (hok : (fileOutcome c v start).failed = false) :
    (fileOutcome c v stored).failed = false ∧
      (fileOutcome c v stored).violation = (fileOutcome c v start).violation ∧
      afterVisit c v stored = afterVisit c v start := by
  cases h with
  | initial => exact ⟨hok,rfl,rfl⟩
  | partway context m hready hrehashed hfree habsorbs hpiece hoffset =>
    obtain ⟨hnext,hnextRehash⟩ := partway_ready context hready hrehashed hoffset
    obtain ⟨-,hstart,hprepared,hnextFree⟩ := partway_decided (c := c) (v := v) context hoffset
    have hfirst := hashed_outcome hready hconstant hrehashed hperform hfree
    have hsecond := hashed_outcome hnext hconstant hnextRehash hperform hnextFree
    rw [fileOutcome_ready hpatterns hready] at hok ⊢
    obtain ⟨rest,hrest⟩ := hpiece
    have hdrop : v.disk.content.drop ((decidedFile c v (storedRow start)).checksumOffset + m.length) = rest := by
      rw [← List.drop_drop,← hrest,List.drop_left]
    rw [hprepared,hstart,hdrop,habsorbs.resumes,hrest] at hsecond
    unfold afterVisit
    rw [fileOutcome_ready hpatterns hnext,fileOutcome_ready hpatterns hready]
    cases hdigest : sha512From (preparedContext (decidedFile c v (storedRow start))).mdContext
        (v.disk.content.drop (decidedFile c v (storedRow start)).checksumOffset) with
    | none =>
      rw [hdigest] at hfirst
      dsimp only at hfirst
      rw [hfirst] at hok
      cases hok
    | some digest =>
      rw [hdigest] at hfirst hsecond
      obtain ⟨-,hviolation,hcolumns⟩ := hfirst
      obtain ⟨hgoes,hviolation',hcolumns'⟩ := hsecond
      exact ⟨hgoes,hviolation'.trans hviolation.symm,by rw [hcolumns,hcolumns']; rfl⟩
  | done digest hcolumns =>
    have hsilent := (recorded_current v digest).silent hpatterns haccess hrehash
    obtain ⟨-,hviolation⟩ := columns_success hcolumns
    unfold afterVisit
    rw [hsilent,hcolumns,hviolation]
    exact ⟨rfl,rfl,rfl⟩

theorem Ready.withoutID {row : DBrow} {i : ℕ} (h : Ready c v { row with ID := i }) : Ready c v row :=
  ready_withID.mp h

theorem prepared_withID (row : DBrow) (i : ℕ) :
    (preparedContext ((decidedFile c v row).withID i)).mdContext = (preparedContext (decidedFile c v row)).mdContext := by
  unfold preparedContext
  have hoffset : ((decidedFile c v row).withID i).checksumOffset = (decidedFile c v row).checksumOffset := rfl
  rw [hoffset]
  split <;> rfl

theorem SavedColumns.withoutID {row : DBrow} {i : ℕ} {log : List Event} {columns : FileColumns}
    (h : SavedColumns c v { row with ID := i } log columns) : SavedColumns c v row log columns := by
  have hbytes (k : ℕ) : readBytes v ((decidedFile c v row).withID i) k = readBytes v (decidedFile c v row) k := rfl
  cases h with
  | empty hsize hchanged hallowed hdone =>
    rw [decidedFile_withID] at hsize hchanged hallowed
    exact .empty hsize hchanged hallowed hdone
  | reused hsize hunwatched hunlocked hdone =>
    rw [decidedFile_withID] at hsize hunwatched
    exact .reused hsize hunwatched hunlocked hdone
  | wrongType hrehash hoffset hopen hseek hquiet hchanged hallowed hdone =>
    rw [decidedFile_withID] at hrehash hoffset hchanged hallowed
    exact .wrongType hrehash hoffset hopen hseek hquiet hchanged hallowed hdone
  | partway k context hrehash hruns habsorbs hreads hoffset hwhy =>
    rw [decidedFile_withID] at hrehash hruns habsorbs hreads hoffset hwhy ⊢
    rw [prepared_withID] at habsorbs
    exact .partway k context hrehash ⟨hruns.openable,hruns.seekable,hruns.performed⟩ habsorbs hreads hoffset hwhy
  | complete context digest hrehash hruns herrno habsorbs hfinal hreads hlog hsame hallowed =>
    rw [decidedFile_withID] at hrehash hruns herrno habsorbs hreads hlog hsame hallowed
    rw [prepared_withID] at habsorbs
    exact .complete context digest hrehash ⟨hruns.openable,hruns.seekable,hruns.performed⟩ herrno habsorbs hfinal
      hreads hlog hsame hallowed

theorem unsealed_of_allowed {file : File} (hrehash : c.rehashLocked = false)
    (hallowed : allowLockedUpdate c file = true) : lockChecksumReady file = false := by
  cases hready : lockChecksumReady file with
  | false => rfl
  | true =>
    rw [rehashLocked_of_allowed hallowed hready] at hrehash
    cases hrehash

theorem digest_of_complete {md context : SHA512Context} {m : List UInt8} {digest : Sha512Digest}
    (habsorbs : Absorbs md m context) (hfinal : ∃ md, sha512Final context = (.cryptOk,md,digest)) :
    sha512From md m = some digest := by
  obtain ⟨md',hfinal⟩ := hfinal
  rw [habsorbs.digest]
  exact digest_some hfinal

theorem readBytes_piece (file : File) (hconstant : v.disk.reading.Constant) (k : ℕ) :
    readBytes v file k <+: v.disk.content.drop file.checksumOffset := by
  have hdelivered : v.disk.delivered file.checksumOffset = v.disk.content.drop file.checksumOffset :=
    hconstant.delivered _
  rw [← hdelivered,DiskFile.delivered]
  conv_rhs => rw [← List.take_append_drop k (v.disk.turns file.checksumOffset)]
  rw [List.flatMap_append]
  exact List.prefix_append _ _

/-- A save of a visit that may be cut short leads from state to state. -/
theorem Reached.save (h : Reached c v start stored) (hconstant : v.disk.reading.Constant)
    (hperform : performFileHashing c = true) (hrehash : c.rehashLocked = false)
    (hpatterns : patternsMatch c v.entry.path = true)
    {log : List Event} {columns : FileColumns} (hready : Ready c v (storedRow stored))
    (hsaved : SavedColumns c v (storedRow stored) log columns) : Reached c v start (some columns) := by
  cases h with
  | initial =>
    have houtcome := fileOutcome_ready hpatterns hready
    cases hsaved with
    | empty hsize hchanged hallowed hdone =>
      have hunhashed : (decidedFile c v (storedRow start)).rehash = false := by
        have hdecided : (decidedFile c v (storedRow start)).rehash =
          if emptyFile (decidedFile c v (storedRow start)) then false
            else rehashDecision c (decidedFile c v (storedRow start)) := rfl
        rw [hdecided,hsize]
        rfl
      have hcolumns := (reused_outcome hready hunhashed hallowed hchanged).1
      rw [hsize,← houtcome] at hcolumns
      exact .done none hcolumns
    | reused hsize hunwatched hunlocked hdone =>
      have hfree : lockChecksumReady (decidedFile c v (storedRow start)) = false := by
        rw [lockChecksumReady,decidedFile_locked,hunlocked]
        rfl
      have hunhashed : (decidedFile c v (storedRow start)).rehash = false := by
        have hdecided : (decidedFile c v (storedRow start)).rehash =
          if emptyFile (decidedFile c v (storedRow start)) then false
            else rehashDecision c (decidedFile c v (storedRow start)) := rfl
        rw [hdecided,hsize,rehashDecision,hfree,hunwatched]
        rfl
      have hallowed : allowLockedUpdate c (decidedFile c v (storedRow start)) = true := by
        rw [allowLockedUpdate,decidedFile_locked,hunlocked]
        simp
      have hdiffers : fileMetadataIdentical (decidedFile c v (storedRow start)) = false := by
        simp only [unwatchedMetadataOnlyChanged,Bool.and_eq_true,Bool.not_eq_true'] at hunwatched
        exact hunwatched.1.1.1.1.2
      have hcolumns := (reused_outcome hready hunhashed hallowed fun _ => hdiffers).1
      rw [hsize,← houtcome] at hcolumns
      exact .done (some (storedRow start).sha512) hcolumns
    | wrongType hrehashed hoffset hopen hseek hquiet hchanged hallowed hdone =>
      rw [show v.disk.seekable 0 = true from hconstant.seekable 0] at hseek
      cases hseek
    | partway k context hrehashed hruns habsorbs hreads hoffset hwhy =>
      have hfree : lockChecksumReady (decidedFile c v (storedRow start)) = false := by
        rcases hwhy with hfree | ⟨hlocked,-⟩
        · exact hfree
        · rw [hrehash] at hlocked
          cases hlocked
      exact .partway context _ hready hrehashed hfree habsorbs (readBytes_piece _ hconstant k) hoffset
    | complete context digest hrehashed hruns herrno habsorbs hfinal hreads hlog hsame hallowed =>
      have hfirst := hashed_outcome hready hconstant hrehashed hperform (unsealed_of_allowed hrehash hallowed)
      rw [show v.disk.delivered (decidedFile c v (storedRow start)).checksumOffset =
        v.disk.content.drop (decidedFile c v (storedRow start)).checksumOffset from hconstant.delivered _] at habsorbs
      rw [digest_of_complete habsorbs hfinal] at hfirst
      exact .done (some digest) (houtcome ▸ hfirst.2.2)
  | partway context m hfirstReady hfirstRehash hfirstFree habsorbs hpiece hoffset =>
    obtain ⟨hresume,hstart,hprepared,hfree⟩ := partway_decided (c := c) (v := v) context hoffset
    obtain ⟨-,hrehashed⟩ := partway_ready context hfirstReady hfirstRehash hoffset
    have hidentical : fileMetadataIdentical (decidedFile c v (storedRow (some (partwayColumns v
        ((decidedFile c v (storedRow start)).checksumOffset + m.length) context)))) = true := identical_of_stat _ rfl
    obtain ⟨rest,hrest⟩ := hpiece
    have hdrop : v.disk.content.drop ((decidedFile c v (storedRow start)).checksumOffset + m.length) = rest := by
      rw [← List.drop_drop,← hrest,List.drop_left]
    cases hsaved with
    | empty hsize hchanged hallowed hdone =>
      rw [hchanged rfl] at hidentical
      cases hidentical
    | reused hsize hunwatched hunlocked hdone =>
      rw [unwatchedMetadataOnlyChanged,hidentical] at hunwatched
      simp at hunwatched
    | wrongType hrehashed hoffset hopen hseek hquiet hchanged hallowed hdone =>
      rw [show v.disk.seekable 0 = true from hconstant.seekable 0] at hseek
      cases hseek
    | partway k context' _ hruns habsorbs' hreads hoffset' hwhy =>
      rw [hprepared] at habsorbs'
      have hlonger := habsorbs.trans habsorbs'
      have hpiece' := readBytes_piece (decidedFile c v (storedRow (some (partwayColumns v
        ((decidedFile c v (storedRow start)).checksumOffset + m.length) context)))) hconstant k
      generalize readBytes v (decidedFile c v (storedRow (some (partwayColumns v
        ((decidedFile c v (storedRow start)).checksumOffset + m.length) context)))) k = m' at *
      rw [hstart,hdrop] at hpiece'
      rw [hstart] at hoffset' ⊢
      have hwhole : m ++ m' <+: v.disk.content.drop (decidedFile c v (storedRow start)).checksumOffset := by
        rw [← hrest]
        exact (List.prefix_append_right_inj m).mpr hpiece'
      have hlength : (decidedFile c v (storedRow start)).checksumOffset + (m ++ m').length =
          (decidedFile c v (storedRow start)).checksumOffset + m.length + m'.length := by
        rw [List.length_append]
        omega
      rw [← hlength] at hoffset' ⊢
      exact .partway context' (m ++ m') hfirstReady hfirstRehash hfirstFree hlonger hwhole hoffset'
    | complete context' digest _ hruns herrno habsorbs' hfinal hreads hlog hsame hallowed =>
      have hfirst := hashed_outcome hfirstReady hconstant hfirstRehash hperform hfirstFree
      have hdigest := digest_of_complete habsorbs' hfinal
      rw [hprepared,hstart,show v.disk.delivered _ = v.disk.content.drop _ from hconstant.delivered _,hdrop,
        habsorbs.resumes,hrest] at hdigest
      rw [hdigest] at hfirst
      exact .done (some digest) ((fileOutcome_ready hpatterns hfirstReady) ▸ hfirst.2.2)
  | done digest hcolumns =>
    have hchanged := hready.changed
    rw [leavesUnchanged,(recorded_current v digest).unchanged,hrehash] at hchanged
    cases hchanged

end Steps

end Precizer.Traversal

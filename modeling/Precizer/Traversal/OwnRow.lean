import Precizer.Traversal.FileWrites
import Precizer.Traversal.SmoothVisit

/-! # The row of one file

Whatever happens while a file is processed, the table is written by its path only: a save
inserts the row of the path if there is none and updates it otherwise. The only other
thing that can happen to the table is that the database itself ends a transaction.
-/
namespace Precizer.Traversal
open General Rational Digest Database

def writeRow (path : RelativePath) (saved : List FileColumns) (t : FilesTable) : FilesTable :=
  saved.foldl (fun t columns => t.upsert path columns) t

theorem writeRow_append (path : RelativePath) (saved saved' : List FileColumns) (t : FilesTable) :
    writeRow path (saved ++ saved') t = writeRow path saved' (writeRow path saved t) :=
  List.foldl_append

theorem writeRow_others (path : RelativePath) (saved : List FileColumns) (t : FilesTable) :
    (writeRow path saved t).otherRows path = t.otherRows path := by
  induction saved generalizing t with
  | nil => rfl
  | cons columns saved ih => exact (ih _).trans (UniqueTable.otherRows_upsert t path columns)

theorem writeRow_names (path : RelativePath) (saved : List FileColumns) (t : FilesTable) :
    t.names <+: (writeRow path saved t).names := by
  induction saved generalizing t with
  | nil => exact List.prefix_rfl
  | cons columns saved ih => exact (UniqueTable.names_upsert t path columns).trans (ih _)

theorem writeRow_single (path : RelativePath) (saved : List FileColumns) (columns : FileColumns) (t : FilesTable) :
    ∃ i, ((writeRow path (saved ++ [columns]) t).rows.filter fun e => e.key = path) = [⟨i,path,columns⟩] := by
  rw [writeRow_append]
  obtain ⟨i,hfind⟩ := UniqueTable.find_upsert (writeRow path saved t) path columns
  exact ⟨i,UniqueTable.rows_of_find hfind⟩

theorem upsert_of_saved {path : RelativePath} {file : File} {pathKnown : Bool} {t t' : FilesTable}
    (hlink : Linked path file pathKnown t) (hsaved : SavedTable path file pathKnown t t') :
    t' = t.upsert path (boundColumns file) := by
  cases pathKnown with
  | true =>
    simp only [Linked,↓reduceIte] at hlink
    simp only [SavedTable,↓reduceIte] at hsaved
    obtain ⟨e,hfind,hident⟩ := hlink
    rw [hsaved,UniqueTable.upsert_known hfind,hident]
  | false =>
    simp only [SavedTable,Bool.false_eq_true,↓reduceIte] at hsaved
    exact (UniqueTable.upsert_unknown hsaved).symm

/-- The database ends no transaction by itself during the visit. -/
structure Visit.Holds (v : Visit) : Prop where
  lookup : v.lookup ≠ .rolledBack
  batchCommit : v.batchCommit ≠ .rolledBack
  save : v.save.statement ≠ .rolledBack
  remember : v.remember ≠ .rolledBack
  turns : ∀ start, ∀ t ∈ v.disk.turns start, t.save.statement ≠ .rolledBack ∧ t.commit ≠ .rolledBack

theorem Visit.Works.holds {v : Visit} (h : v.Works) : v.Holds where
  lookup := by rw [h.lookup]; decide
  batchCommit := by rw [h.batchCommit]; decide
  save := by rw [h.save.statement]; decide
  remember := h.remember
  turns := by
    intro start t ht
    obtain ⟨hsave,hcommit⟩ := h.turns start t ht
    rw [hsave.statement,hcommit]
    decide

def Event.isSave : Event → Bool
  | .statement (.save _) _ => true
  | _ => false

def Session.saves (s : Session) : ℕ := s.events.countP Event.isSave

/-- What a part of a visit does to the table in use and to the committed one, and how many of
the saves it issues are writes when every statement works. -/
structure RowKept (v : Visit) (s s' : Session) : Prop where
  table : (∃ saved, s'.table = writeRow v.entry.path saved s.table) ∨
    (¬ v.Holds ∧ ∃ saved, s'.table = writeRow v.entry.path saved s.store.committed)
  committed : (∃ saved, s'.store.committed = writeRow v.entry.path saved s.table) ∨
    ∃ saved, s'.store.committed = writeRow v.entry.path saved s.store.committed
  counted : v.Works → ∃ saved, s'.table = writeRow v.entry.path saved s.table ∧
    s'.saves = s.saves + saved.length

section Steps

variable {c : Config} {v : Visit} {s s' s'' : Session}

theorem RowKept.silent (htable : s'.table = s.table)
    (hcommitted : s'.store.committed = s.store.committed ∨ s'.store.committed = s.table)
    (hsaves : s'.saves = s.saves) : RowKept v s s' where
  table := .inl ⟨[],htable⟩
  committed := by
    rcases hcommitted with hsame | hmoved
    · exact .inr ⟨[],hsame⟩
    · exact .inl ⟨[],hmoved⟩
  counted := fun _ => ⟨[],htable,hsaves⟩

theorem RowKept.refl (s : Session) : RowKept v s s := .silent rfl (.inl rfl) rfl

theorem RowKept.trans (h : RowKept v s s') (h' : RowKept v s' s'') : RowKept v s s'' where
  table := by
    rcases h'.table with ⟨saved',ht'⟩ | ⟨hheld,saved',ht'⟩
    · rcases h.table with ⟨saved,ht⟩ | ⟨hheld,saved,ht⟩
      · exact .inl ⟨saved ++ saved',by rw [ht',ht,writeRow_append]⟩
      · exact .inr ⟨hheld,saved ++ saved',by rw [ht',ht,writeRow_append]⟩
    · rcases h.committed with ⟨saved,ht⟩ | ⟨saved,ht⟩
      · exact .inl ⟨saved ++ saved',by rw [ht',ht,writeRow_append]⟩
      · exact .inr ⟨hheld,saved ++ saved',by rw [ht',ht,writeRow_append]⟩
  committed := by
    rcases h'.committed with ⟨saved',ht'⟩ | ⟨saved',ht'⟩
    · rcases h.table with ⟨saved,ht⟩ | ⟨-,saved,ht⟩
      · exact .inl ⟨saved ++ saved',by rw [ht',ht,writeRow_append]⟩
      · exact .inr ⟨saved ++ saved',by rw [ht',ht,writeRow_append]⟩
    · rcases h.committed with ⟨saved,ht⟩ | ⟨saved,ht⟩
      · exact .inl ⟨saved ++ saved',by rw [ht',ht,writeRow_append]⟩
      · exact .inr ⟨saved ++ saved',by rw [ht',ht,writeRow_append]⟩
  counted := by
    intro hworks
    obtain ⟨saved,ht,hn⟩ := h.counted hworks
    obtain ⟨saved',ht',hn'⟩ := h'.counted hworks
    refine ⟨saved ++ saved',by rw [ht',ht,writeRow_append],?_⟩
    rw [hn',hn,List.length_append,Nat.add_assoc]

theorem saves_emit (s : Session) {e : Event} (he : e.isSave = false) : (s.emit e).saves = s.saves := by
  unfold Session.saves
  change (s.events ++ [e]).countP Event.isSave = _
  simp [he]

theorem RowKept.emit (s : Session) {e : Event} (he : e.isSave = false) : RowKept v s (s.emit e) :=
  .silent rfl (.inl rfl) (saves_emit s he)

theorem RowKept.report (s : Session) (r : Report) : RowKept v s (s.report r) := .emit s rfl

theorem RowKept.requestReplay (s : Session) : RowKept v s s.requestReplay := .silent rfl (.inl rfl) rfl

theorem RowKept.rollbackStore (s : Session) (hheld : ¬ v.Holds) : RowKept v s s.rollbackStore where
  table := .inr ⟨hheld,[],rfl⟩
  committed := .inr ⟨[],rfl⟩
  counted := fun hworks => absurd hworks.holds hheld

theorem RowKept.sideWrite (s : Session) {o : SqlOutcome} (ho : v.Holds → o ≠ .rolledBack) :
    RowKept v s (s.sideWrite o) := by
  unfold Session.sideWrite
  split
  · rename_i hrolled
    exact .rollbackStore s fun hheld => ho hheld hrolled
  · exact .refl s

theorem RowKept.begin (halted : Bool) (script : SaveScript) (s : Session) :
    RowKept v s (dbFileTransactionBegin c halted script s).2 := by
  have hexec : RowKept v s (execBegin s script.begin).2 := by
    unfold execBegin
    split
    · exact .silent rfl (.inl rfl) (@saves_emit s (Event.statement .begin s.store.autocommit) rfl)
    · exact .emit s rfl
  unfold dbFileTransactionBegin
  split
  · exact .refl s
  · split
    · exact .refl s
    · dsimp only
      split
      · exact ⟨hexec.table,hexec.committed,hexec.counted⟩
      · exact hexec

theorem RowKept.commit (halted : Bool) {o : SqlOutcome} (s : Session) (ho : v.Holds → o ≠ .rolledBack) :
    RowKept v s (dbFileTransactionCommit halted o s).2 := by
  have hnoted : RowKept v s (s.execute .commit) := .emit s rfl
  have hexec : RowKept v s (execCommit s o).2 := by
    unfold execCommit
    split
    · exact hnoted
    · cases o with
      | done => exact .silent rfl (.inr rfl) (@saves_emit s (Event.statement .commit s.store.autocommit) rfl)
      | failed => exact hnoted
      | rolledBack => exact hnoted.trans (.rollbackStore _ fun hheld => ho hheld rfl)
  unfold dbFileTransactionCommit
  split
  · dsimp only
    split
    · exact ⟨hexec.table,hexec.committed,hexec.counted⟩
    · exact hexec
  · exact .refl s

theorem RowKept.execWrite {columns : FileColumns} {t : Option FilesTable} {o : SqlOutcome} (s : Session)
    (ht : t = some (s.table.upsert v.entry.path columns)) (ho : v.Holds → o ≠ .rolledBack)
    (hdone : v.Works → o = .done) : RowKept v s (execWrite s v.entry.path t o).2 := by
  subst ht
  have hissued : RowKept v s (s.execute (.save v.entry.path)) ∨ o = .done := by
    cases o with
    | done => exact .inr rfl
    | failed => exact .inl ⟨.inl ⟨[],rfl⟩,.inr ⟨[],rfl⟩,fun hworks => by cases hdone hworks⟩
    | rolledBack => exact .inl ⟨.inl ⟨[],rfl⟩,.inr ⟨[],rfl⟩,fun hworks => by cases hdone hworks⟩
  unfold Database.execWrite
  cases o with
  | done =>
    refine ⟨.inl ⟨[columns],Store.write_working _ _⟩,?_,fun _ => ⟨[columns],Store.write_working _ _,?_⟩⟩
    · change (∃ saved, (Store.write _ _).committed = _) ∨ ∃ saved, (Store.write _ _).committed = _
      cases hauto : s.store.autocommit with
      | true =>
        refine .inl ⟨[columns],?_⟩
        rw [Store.write_durable (by exact hauto)]
        rfl
      | false =>
        refine .inr ⟨[],?_⟩
        rw [Store.write_committed (by exact hauto)]
        rfl
    · change (Store.write _ _).log.countP Event.isSave = _
      rw [Store.write_log]
      change (s.events ++ [Event.statement (.save v.entry.path) s.store.autocommit]).countP Event.isSave = _
      simp [Session.saves,Event.isSave]
  | failed => exact hissued.resolve_right (by decide)
  | rolledBack =>
    exact (hissued.resolve_right (by decide)).trans (.rollbackStore _ fun hheld => ho hheld rfl)

theorem RowKept.save (halted : Bool) {script : SaveScript} {file : File} {pathKnown : Bool} (mark : Bool)
    (s : Session) (hlink : c.dryRun = false → Linked v.entry.path file pathKnown s.table)
    (ho : v.Holds → script.statement ≠ .rolledBack) (hdone : v.Works → script.statement = .done) :
    RowKept v s (dbSaveFileRecord c halted script v.entry.path file pathKnown mark s).session := by
  have hbegun : RowKept v s (dbFileTransactionBegin c halted script s).2 := .begin halted script s
  have htable : (dbFileTransactionBegin c halted script s).2.table = s.table := (begin_frame c halted script s).1
  have hcases := save_cases c halted script v.entry.path file pathKnown mark s
  dsimp only at hcases
  generalize (dbFileTransactionBegin c halted script s).2 = begun at hbegun htable hcases
  rw [← htable] at hlink
  have hupdate : pathKnown = true → RowKept v begun (dbUpdateTheRecordById c v.entry.path script.statement file begun).2 := by
    intro hknown
    unfold dbUpdateTheRecordById
    split
    · exact .refl _
    · rename_i hdry
      refine .execWrite _ (congrArg some (upsert_of_saved (hlink (by simpa using hdry)) ?_)) ho hdone
      rw [SavedTable,if_pos hknown]
      rfl
  have hinsert : pathKnown = false → RowKept v begun (dbInsertTheRecord c v.entry.path script.statement file begun).2 := by
    intro hunknown
    unfold dbInsertTheRecord
    split
    · exact .refl _
    · rename_i hdry
      have hlinked := hlink (by simpa using hdry)
      have hnone : begun.table.find v.entry.path = none := by
        rw [Linked,hunknown] at hlinked
        exact hlinked
      obtain ⟨t',ht'⟩ := UniqueTable.insert_isSome (boundColumns file) hnone
      refine .execWrite _ (ht'.trans (congrArg some (upsert_of_saved hlinked ?_))) ho hdone
      rw [SavedTable,hunknown]
      exact ht'
  rcases hcases with ⟨-,h⟩ | h | ⟨ok,r,hknown,hr,h⟩ | ⟨r,hunknown,hr,h⟩ | ⟨r,hunknown,hr,h⟩
  · rw [h]
    exact .refl s
  · rw [h]
    exact hbegun
  · have hwritten := hupdate hknown
    rw [← hr] at hwritten
    rw [h]
    exact hbegun.trans hwritten
  · have hwritten := hinsert hunknown
    rw [← hr] at hwritten
    rw [h]
    exact hbegun.trans hwritten
  · have hwritten := hinsert hunknown
    rw [← hr] at hwritten
    rw [h]
    exact hbegun.trans hwritten

def Allowed (v : Visit) (t : Turn) : Prop :=
  (v.Holds → t.save.statement ≠ .rolledBack ∧ t.commit ≠ .rolledBack) ∧ (v.Works → t.save.statement = .done)

theorem allowed_of_mem {start : ℕ} {t : Turn} (h : t ∈ v.disk.turns start) : Allowed v t :=
  ⟨fun hheld => hheld.turns start t h,fun hworks => (hworks.turns start t h).1.statement⟩

def HashState.Knows (v : Visit) (h : HashState) : Prop :=
  h.status.failure = false → Linked v.entry.path h.file h.pathKnown h.session.table

theorem HashState.Knows.sound {h : HashState} (hknows : h.Knows v) : h.Sound v.entry.path fun _ _ => True where
  always := ⟨trivial,trivial,fun _ _ => trivial,fun _ _ => trivial⟩
  linked := hknows

theorem checkpointSave_kept (c : Config) {h : HashState} (hknows : h.Knows v) (hok : h.status.failure = false) (n : ℕ)
    {t : Turn} (ht : Allowed v t) : RowKept v h.session (h.checkpointSave c v v.entry.path n t).session ∧
      (h.checkpointSave c v v.entry.path n t).Knows v := by
  refine ⟨?_,(checkpointSave_sound (fun _ _ _ h => h) c v n t hknows.sound hok (fun _ _ _ _ _ _ => trivial)).linked⟩
  unfold HashState.checkpointSave
  split
  · exact .save _ false _ (fun _ => hknows hok) (fun hheld => (ht.1 hheld).1) ht.2
  · exact .refl _

/-- One chunk, with its checkpoint. -/
theorem hashTurn_kept {h : HashState} (hknows : h.Knows v) (n : ℕ) {t : Turn} (ht : Allowed v t) :
    RowKept v h.session (hashTurn c v v.entry.path n t h).1.session ∧ (hashTurn c v v.entry.path n t h).1.Knows v := by
  rcases hashTurn_cases c v v.entry.path n t h with ⟨-,hturn⟩ | ⟨-,hturn⟩ | ⟨hsuccess,md,hupd,hcases⟩
  · rw [hturn]
    exact ⟨.refl _,hknows⟩
  · rw [hturn]
    exact ⟨.refl _,fun hno => by cases hno⟩
  · have hstatus : h.status = outcome true false := hsuccess
    have hnofail : h.status.failure = false := by rw [hsuccess]; rfl
    have habsorbed : (h.absorbed v.entry.path md t.bytes).Knows v :=
      fun hno => linked_transfer (hknows hno) rfl rfl rfl
    have hemitted : RowKept v h.session (h.absorbed v.entry.path md t.bytes).session := .emit _ rfl
    obtain ⟨hsaved,hsavedKnows⟩ := checkpointSave_kept c habsorbed hnofail n ht
    obtain ⟨ok,halted',hsavedStatus,-⟩ :=
      HashState.checkpointSave_status c v v.entry.path n t (h.absorbed v.entry.path md t.bytes) hstatus
    have hcommitted : RowKept v ((h.absorbed v.entry.path md t.bytes).checkpointSave c v v.entry.path n t).session
        (((h.absorbed v.entry.path md t.bytes).checkpointSave c v v.entry.path n t).checkpointCommit v n t).session :=
      .commit _ _ fun hheld => (ht.1 hheld).2
    have hcommittedKnows (hgoes : ((h.absorbed v.entry.path md t.bytes).checkpointSave c v v.entry.path n t).status.failure =
        false) := (checkpointCommit_sound (fun _ _ _ h => h) v n t hsavedKnows.sound hsavedStatus hgoes).linked
    rcases hcases with ⟨-,hturn⟩ | ⟨-,hturn⟩ | ⟨hgoes,-,hturn⟩ | ⟨hgoes,-,hturn⟩
    · rw [hturn]
      exact ⟨hemitted,habsorbed⟩
    · rw [hturn]
      exact ⟨hemitted.trans hsaved,hsavedKnows⟩
    · rw [hturn]
      exact ⟨(hemitted.trans hsaved).trans hcommitted,hcommittedKnows hgoes⟩
    · rw [hturn]
      exact ⟨(hemitted.trans hsaved).trans hcommitted,hcommittedKnows hgoes⟩

theorem hashLoop_kept (readErrno : Option ℕ) (turns : List Turn) (hturns : ∀ t ∈ turns, Allowed v t) (n : ℕ)
    {h : HashState} (hknows : h.Knows v) :
    RowKept v h.session (hashLoop c v v.entry.path readErrno n turns h).session := by
  induction turns generalizing n h with
  | nil =>
    unfold hashLoop
    split
    · exact .refl _
    · cases readErrno with
      | none => exact .refl _
      | some errno => exact .refl _
  | cons t rest ih =>
    obtain ⟨hturn,hnext⟩ := hashTurn_kept (c := c) hknows n (hturns t List.mem_cons_self)
    unfold hashLoop
    split
    · exact .refl _
    · dsimp only
      split
      · exact hturn
      · exact hturn.trans (ih (fun t' ht' => hturns t' (List.mem_cons_of_mem _ ht')) (n + 1) hnext)

theorem sha512sum_kept {file : File} {pathKnown : Bool} (hlink : Linked v.entry.path file pathKnown s.table) :
    RowKept v s (sha512sum c v v.entry.path file pathKnown s).session := by
  unfold sha512sum
  dsimp only
  split
  · exact .refl s
  · split
    · split
      · have hknows : (hashStart v file pathKnown s).Knows v :=
          fun _ => linked_transfer hlink (preparedContext_ID file) rfl rfl
        exact (hashLoop_kept _ _ (fun _ ht => allowed_of_mem ht) 0 hknows).trans (.emit _ rfl)
      · exact .refl s
    · exact .refl s

theorem showStage_kept (file : File) (s : Session) : RowKept v s (showStage c v file s) := by
  have hfold : ∀ (labels : List FileLabel) (s : Session),
      RowKept v s (labels.foldl (fun s label => s.report (.file v.entry.path label)) s) := by
    intro labels
    induction labels with
    | nil => exact fun s => .refl s
    | cons label rest ih => exact fun s => (RowKept.report s _).trans (ih _)
  exact (hfold _ s).trans (.sideWrite _ fun hheld => hheld.remember)

end Steps

section File

variable {c : Config} {v : Visit} {p : Pass}

theorem hashStage_kept {r : Except Pass HashStage} (hcase : HashStageCase c v p r) :
    (∀ p', r = .error p' → RowKept v p.session p'.session) ∧ ∀ st, r = .ok st → RowKept v p.session st.session := by
  have hmet : RowKept v p.session (decidedStage c v p).session := .emit _ rfl
  have hlink : Linked v.entry.path (decidedFile c v (p.row v)) (p.row v).relativePathWasInDbBeforeProcessing
      (decidedStage c v p).session.table := by
    have hrow := linked_readRow p.session.table v.entry.path (decidedFile_db c v (p.row v))
    rwa [decidedFile_db] at hrow
  have hhashed : RowKept v p.session (hashOf c v p).session := hmet.trans (sha512sum_kept hlink)
  cases hcase with
  | unprocessed | reused | haltedResume =>
    refine ⟨(fun p' hp' => by cases hp'),?_⟩
    rintro st ⟨⟩
    exact hmet
  | failed | interrupted | hashed =>
    refine ⟨(fun p' hp' => by cases hp'),?_⟩
    rintro st ⟨⟩
    exact hhashed
  | haltedEarly =>
    refine ⟨?_,(fun st hst => by cases hst)⟩
    rintro p' ⟨⟩
    exact hmet
  | dropped =>
    refine ⟨?_,(fun st hst => by cases hst)⟩
    rintro p' ⟨⟩
    exact hhashed

theorem settleFile_kept {st : HashStage}
    (hlink : st.hashFailed = false → Linked v.entry.path st.file st.pathKnown st.session.table) :
    RowKept v st.session (settleFile c v p (st.compared c)).session := by
  have hsession : (st.compared c).session = st.session := by
    unfold HashStage.compared; split <;> rfl
  unfold settleFile
  dsimp only
  split
  · rw [hsession]
    split
    · exact (RowKept.requestReplay _).trans (showStage_kept _ _)
    · exact showStage_kept _ _
  · rename_i hopen
    have hopen : (st.compared c).blocked = false := by simpa using hopen
    obtain ⟨hcompared,-⟩ := compared_of_open hopen
    rw [hcompared] at hopen ⊢
    split
    · exact showStage_kept _ _
    · have hsaved : RowKept v st.session (dbSaveFileRecord c (v.signal.halted .record) v.save v.entry.path st.file
          st.pathKnown true st.session).session :=
        .save _ true _ (fun _ => hlink (blocked_eq_false hopen).2.1) (fun hheld => hheld.save)
          fun hworks => hworks.save.statement
      split
      · exact hsaved.trans (showStage_kept _ _)
      · exact hsaved

theorem loadFile_kept {p' : Pass} (h : loadFile c v p = .error p') : RowKept v p.session p'.session := by
  have hside : RowKept v p.session (p.session.sideWrite v.lookup) := .sideWrite _ fun hheld => hheld.lookup
  have hlooked (skipped : Bool) : RowKept v p.session (if skipped then p.session else p.session.sideWrite v.lookup) := by
    cases skipped with
    | true => exact .refl _
    | false => exact hside
  unfold loadFile at h
  dsimp only at h
  split at h
  · cases h
    exact .refl _
  · split at h
    · cases h
      exact hlooked _
    · split at h
      · cases h
        exact hlooked _
      · split at h
        · cases h
          exact hlooked _
        · cases h

theorem processFile_unloaded {p' : Pass} (h : loadFile c v p = .error p') : processFile c v p = p' := by
  rw [processFile,h]

theorem processFile_kept (c : Config) (v : Visit) (p : Pass) : RowKept v p.session (processFile c v p).session := by
  rcases loadFile_cases c v p with ⟨status,session,hload,-,-⟩ | hload
  · rw [processFile_unloaded hload]
    exact loadFile_kept hload
  · have hlocked : RowKept v p.session (reportLockedUnavailable v p) :=
      ((RowKept.report _ _).trans (.sideWrite _ fun hheld => hheld.remember)).trans (.requestReplay _)
    rcases processFile_loaded c v p hload with ⟨-,⟨-,hstop⟩ | ⟨-,hnext⟩⟩ | ⟨-,-,hleft⟩ | ⟨-,hchanged,hwatched,hrun⟩
    · rw [hstop]
      exact hlocked
    · rw [hnext]
      exact hlocked
    · rw [hleft]
      exact .emit _ rfl
    · have hcase := hashStage_cases c v p
      have hready : shouldProcess (decidedFile c v (p.row v)) = true → Ready c v (p.row v) :=
        fun hprocess => ⟨hprocess,hchanged,hwatched⟩
      have htrue : p.session.Always fun _ _ => True := ⟨trivial,trivial,fun _ _ => trivial,fun _ _ => trivial⟩
      have hsound := hashStage_sound (fun _ _ _ h => h) htrue hready (fun _ _ _ _ _ _ _ _ _ => trivial) hcase
      have hkept := hashStage_kept hcase
      rw [hrun]
      cases hstage : hashStage c v p (decidedStage c v p) with
      | error p' => exact hkept.1 p' hstage
      | ok st => exact (hkept.2 st hstage).trans (settleFile_kept (hsound.2 st hstage).linked)

theorem traverseStep_kept (c : Config) (p : Pass) {v : Visit} (hinfo : v.entry.info = .file) :
    RowKept v p.session (traverseStep c p v).session := by
  have hbatch : RowKept v p.session (checkBatch v { p with skipBelow := none }).session := by
    unfold checkBatch dbFileTransactionCheck
    split
    · dsimp only
      split
      · exact .commit _ _ fun hheld => hheld.batchCommit
      · exact .refl _
    · exact .refl _
  unfold traverseStep
  split
  · unfold visitEntry
    split
    · exact .refl _
    · dsimp only
      split
      · exact hbatch
      · rw [hinfo]
        split
        · exact hbatch
        · have hentry : RowKept v (checkBatch v { p with skipBelow := none }).session
              (processEntry c v (checkBatch v { p with skipBelow := none })).session := by
            rw [processEntry,hinfo]
            exact processFile_kept c v _
          exact hbatch.trans hentry
  · exact .refl _

end File

end Precizer.Traversal

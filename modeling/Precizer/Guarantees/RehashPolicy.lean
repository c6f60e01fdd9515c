import Precizer.Pipeline.MetRows

/-! # The rehash policy of complete rows

The checksum of a complete, unlocked row is recalculated when the size or the modification
time changes, and with watched timestamps also for the change time and the known blocks.
Every other difference only renews the stored metadata.
-/
namespace Precizer.Guarantees
open General Rational Digest Traversal Database Pipeline

/-- The fields whose difference asks for a new checksum. -/
def NeedsHash (c : Config) (stored current : CmpctStat) : Prop :=
  stored.stSize ≠ current.stSize ∨ ¬ stored.SameMtime current ∨
    c.watchTimestamps = true ∧ (¬ stored.SameCtime current ∨ stored.BlocksDiffer current)

structure UnlockedFile (c : Config) (v : Visit) : Prop where
  readable : v.Readable
  patterns : patternsMatch c v.entry.path = true
  visible : (matchIncludeIgnore c false v.entry.path).ignored = false
  unlocked : c.locked v.entry.path = false

section Policy

variable {c : Config} {v : Visit} {p : Pass} {columns : FileColumns} {digest : Sha512Digest}

theorem UnlockedFile.shown (h : UnlockedFile c v) : Shown c v.entry.path := ⟨h.patterns,.inl h.visible⟩

/-- The decision of the code is the one of the policy. -/
theorem needsHash_iff (hfile : UnlockedFile c v) (hcomplete : Complete columns digest) :
    NeedsHash c (storedStat columns) (statCopy v.entry.statp) ↔
      ¬ (storedStat columns).Matches (statCopy v.entry.statp) ∧
        (decidedFile c v (storedRow (some columns))).rehash = true := by
  rw [hcomplete.rehash_iff hfile.readable.nonempty,hfile.unlocked]
  have hmatches : (storedStat columns).Matches (statCopy v.entry.statp) ↔
      (storedStat columns).stSize = v.entry.statp.stSize ∧ (storedStat columns).SameMtime (statCopy v.entry.statp) ∧
        (storedStat columns).SameCtime (statCopy v.entry.statp) ∧
        ¬ (storedStat columns).BlocksDiffer (statCopy v.entry.statp) :=
    ⟨fun h => ⟨h.size,h.mtime,h.ctime,h.blocks⟩,fun h => ⟨h.1,h.2.1,h.2.2.1,h.2.2.2⟩⟩
  have hsize : (statCopy v.entry.statp).stSize = v.entry.statp.stSize := rfl
  rw [NeedsHash,hmatches,hsize]
  simp only [Bool.false_eq_true,false_and,false_or]
  tauto

end Policy

section Run

variable {r : RunScript} {t : FilesTable} {log : List Event} {v : Visit} {p : Pass} {columns : FileColumns}
  {digest : Sha512Digest}

theorem hashed_iff (hmeeting : QuietMeeting r t log v p) (hfile : UnlockedFile r.config v)
    (hrow : contents p.session.table v.entry.path = some columns) (hcomplete : Complete columns digest) :
    Hashed r.config v p ↔ NeedsHash r.config (storedStat columns) (statCopy v.entry.statp) := by
  rw [needsHash_iff hfile hcomplete]
  constructor
  · intro hhashed
    by_contra hno
    refine QuietMeeting.unread hrow (fun hready => ?_) hhashed.reads
    by_contra hrehash
    refine hno ⟨fun hsame => ?_,by simpa using hrehash⟩
    have hchanged := hready.changed
    rw [(hcomplete.leaves_iff (c := r.config)).mpr ⟨hsame,by simp [hfile.unlocked]⟩] at hchanged
    cases hchanged
  · rintro ⟨hdiffers,hrehash⟩
    exact hmeeting.hashed hrow hfile.patterns
      (unlocked_ready hcomplete hfile.readable hfile.shown hfile.unlocked hdiffers) hrehash
      (hcomplete.runs hfile.readable hmeeting.performs)

/-- The rehash policy: which difference hashes the file, and what its row holds afterwards. -/
theorem rehash_policy (hmeeting : QuietMeeting r t log v p) (hfile : UnlockedFile r.config v)
    (hrow : contents p.session.table v.entry.path = some columns) (hcomplete : Complete columns digest) :
    (Hashed r.config v p ↔ NeedsHash r.config (storedStat columns) (statCopy v.entry.statp)) ∧
      (NeedsHash r.config (storedStat columns) (statCopy v.entry.statp) →
        if 8 * (v.disk.delivered 0).length < 2 ^ 64 then
          contents (processFile r.config v p).session.table v.entry.path =
            some (recorded v (some (sha512 (v.disk.delivered 0))))
        else (processFile r.config v p).status = failureStatus) ∧
      (¬ NeedsHash r.config (storedStat columns) (statCopy v.entry.statp) →
        ¬ (storedStat columns).Matches (statCopy v.entry.statp) →
        contents (processFile r.config v p).session.table v.entry.path = some (recorded v (some digest))) ∧
      ((storedStat columns).Matches (statCopy v.entry.statp) →
        ¬ Saved r.config v p ∧ (processFile r.config v p).session.table = p.session.table) ∧
      (∀ tree stored existed, TreeRun tree stored existed r → tree.Sound → (runFrom r t log).interrupted = false →
        (runFrom r t log).status.failure = false → contents (runFrom r t log).session.table v.entry.path =
          contents (processFile r.config v p).session.table v.entry.path) := by
  have hsettled := hmeeting.settled
  rw [hrow] at hsettled
  refine ⟨hashed_iff hmeeting hfile hrow hcomplete,?_,?_,?_,?_⟩
  · intro hneeds
    obtain ⟨hdiffers,hrehash⟩ := (needsHash_iff hfile hcomplete).mp hneeds
    have houtcome := unlocked_hashed hcomplete hfile.readable hfile.shown hfile.unlocked hmeeting.performs hdiffers hrehash
    split
    · rename_i hcounts
      rw [if_pos hcounts] at houtcome
      exact hsettled.written hmeeting.writes _ houtcome
    · rename_i hcounts
      rw [if_neg hcounts] at houtcome
      exact (hsettled.stops houtcome).1
  · intro hspared hdiffers
    have hrehash : (decidedFile r.config v (storedRow (some columns))).rehash = false := by
      by_contra hrehash
      exact hspared ((needsHash_iff hfile hcomplete).mpr ⟨hdiffers,by simpa using hrehash⟩)
    exact hsettled.written hmeeting.writes _
      (unlocked_reused hcomplete hfile.readable hfile.shown hfile.unlocked hdiffers hrehash)
  · intro hsame
    have hsilent := unlocked_silent hcomplete hfile.readable hfile.shown hfile.unlocked hsame
    rw [hsilent] at hsettled
    refine ⟨hmeeting.unsaved hrow (by rw [hsilent]) fun hready _ => ?_,
      hsettled.unwritten rfl rfl fun _ => hfile.readable.toLegible.uncut _ _⟩
    have hchanged := hready.changed
    rw [(hcomplete.leaves_iff (c := r.config)).mpr ⟨hsame,by simp [hfile.unlocked]⟩] at hchanged
    cases hchanged
  · intro tree stored existed hrun hsound hquiet hok
    exact hrun.visited_row hsound hmeeting hquiet hok hfile.readable.toLegible hfile.readable.access (.inl hfile.visible)

end Run

/-- The file `x`, modified after its row was stored. -/
def modifiedVisit : Visit := .plain (.plain [120] 1 2) (.plain [7])

def storedBefore : FileColumns := ⟨none,some zeroDigest,some (statCopy (FtsEntry.plain [120] 1 1).statp).toBytes,none⟩

theorem rehash_policy_modified :
    let r : RunScript := .plain { update := true } [modifiedVisit] fun _ => .accessAllowed
    let p := plainStart (.singleton 1 [120] storedBefore) []
    (Hashed r.config modifiedVisit p ↔ NeedsHash r.config (storedStat storedBefore) (statCopy modifiedVisit.entry.statp)) ∧
      (NeedsHash r.config (storedStat storedBefore) (statCopy modifiedVisit.entry.statp) →
        if 8 * (modifiedVisit.disk.delivered 0).length < 2 ^ 64 then
          contents (processFile r.config modifiedVisit p).session.table [120] =
            some (recorded modifiedVisit (some (sha512 (modifiedVisit.disk.delivered 0))))
        else (processFile r.config modifiedVisit p).status = failureStatus) :=
  let h := @rehash_policy _ (.singleton 1 [120] storedBefore) [] _ _ storedBefore zeroDigest
    (@QuietMeeting.plain _ _ (fun _ => .accessAllowed) _ _ rfl rfl rfl (Visit.plain_smooth _ _) rfl)
    ⟨Visit.plain_readable [7] (by decide),rfl,rfl,rfl⟩ (by decide) ⟨rfl,rfl⟩
  ⟨h.1,h.2.1⟩

end Precizer.Guarantees

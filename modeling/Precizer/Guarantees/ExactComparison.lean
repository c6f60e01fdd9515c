import Precizer.Database.ComparisonRules

/-! # What a comparison reports

The lists of a comparison are exact. Its equality messages are only as good as the
digests behind them: two rows without a digest count as equal.
-/
namespace Precizer.Guarantees
open General Rational Traversal Database

variable {c : Config} {script : CompareScript} {f : CompareFilter} {a b : FilesTable}

inductive EqualityMessage : CompareCategory → CompareLine → Prop
  | identical (category : CompareCategory) : EqualityMessage category .allFilesIdentical
  | equal (category : CompareCategory) : EqualityMessage category .absolutelyEqual
  | first : EqualityMessage .firstSource .noFirstSourceDifferences
  | second : EqualityMessage .secondSource .noSecondSourceDifferences
  | checksums : EqualityMessage .checksumMismatch .allChecksumsIdentical

theorem message_outside {category : CompareCategory} {line : CompareLine} (h : EqualityMessage category line) :
    (∀ category, ¬ line.belongsTo category) ∧ line ≠ .starting ∧ line ≠ .complete := by
  have hne : ∀ category path, line ≠ .heading category ∧ line ≠ .path category path := by
    intro category path
    cases h <;> exact ⟨nofun,nofun⟩
  refine ⟨?_,?_,?_⟩
  · rintro category (hline | ⟨path,hline⟩)
    · exact (hne category []).1 hline
    · exact (hne category path).2 hline
  · cases h <;> exact nofun
  · cases h <;> exact nofun

theorem found_of_message {category : CompareCategory} {line : CompareLine} {found : CompareCategory → Bool}
    (h : EqualityMessage category line)
    (hline : line ∈ compareSummary f (found .firstSource) (found .secondSource) (found .checksumMismatch)) :
    found category = false := by
  rw [mem_compareSummary] at hline
  have hall : found .firstSource = false ∧ found .secondSource = false ∧ found .checksumMismatch = false →
      found category = false := by
    rintro ⟨h1,h2,h3⟩
    cases category
    · exact h1
    · exact h2
    · exact h3
  cases h with
  | identical => exact hall (by simpa using hline.elim (fun h => h.2.2) nofun)
  | equal => exact hall (by simp at hline; tauto)
  | first => simp at hline; exact hline.2.2
  | second => simp at hline; exact hline.2.2
  | checksums => simp at hline; exact hline.2

/-- A comparison that succeeds without an interrupt is exact: its lists are in order and
without repetition, have exactly the selected, visible members of their categories, do
not depend on the filter that selects them, are never contradicted by a message, and are
swapped when the databases are. -/
theorem comparison_exact (hcompare : c.compare = true) (hquiet : script.signal.arrival = none)
    (hok : (dbCompare c script f a b).status = successStatus) :
    (∀ category,
      (listed category (dbCompare c script f a b).lines).Nodup ∧
      (listed category (dbCompare c script f a b).lines).Pairwise (· ≤ ·) ∧
      ∀ path, path ∈ listed category (dbCompare c script f a b).lines ↔
        f.checks category = true ∧ inScope c path = true ∧ InCategory category a b path) ∧
    (∀ script' f', script'.signal.arrival = none → (dbCompare c script' f' a b).status = successStatus →
      ∀ category, f.checks category = true → f'.checks category = true →
        listed category (dbCompare c script' f' a b).lines = listed category (dbCompare c script f a b).lines) ∧
    (∀ category line, EqualityMessage category line → f.checks category = true →
      listed category (dbCompare c script f a b).lines ≠ [] → line ∉ (dbCompare c script f a b).lines) ∧
    (∀ script' f', script'.signal.arrival = none → (dbCompare c script' f' b a).status = successStatus →
      (∀ category, f'.checks category = f.checks category.swap) → ∀ category,
        listed category (dbCompare c script' f' b a).lines =
          listed category.swap (dbCompare c script f a b).lines) := by
  have hlisted := dbCompare_listed hcompare hquiet hok
  refine ⟨?_,?_,?_,?_⟩
  · intro category
    rw [hlisted]
    exact ⟨selected_nodup category,selected_sorted category,fun path => mem_selected⟩
  · intro script' f' hquiet' hok' category hchecks hchecks'
    rw [hlisted,dbCompare_listed hcompare hquiet' hok',selectedPaths,selectedPaths,if_pos hchecks,if_pos hchecks']
  · intro category line hmessage _ hsome hline
    obtain ⟨hbelongs,hstart,hcomplete⟩ := message_outside hmessage
    rw [dbCompare_summary hcompare hquiet hok hbelongs hstart hcomplete] at hline
    have hfound := @found_of_message f category line (fun category => !(selectedPaths c f category a b).isEmpty)
      hmessage hline
    rw [hlisted] at hsome
    exact hsome (by simpa using hfound)
  · intro script' f' hquiet' hok' hswap category
    rw [hlisted,dbCompare_listed hcompare hquiet' hok',selected_swap hswap]

def describesEmpty (columns : FileColumns) : Prop :=
  ∃ blob, columns.stat = some blob ∧ (CmpctStat.ofBytes blob).stSize = 0

/-- The rows of a path in both databases. -/
structure CommonPath (c : Config) (a b : FilesTable) (path : RelativePath)
    (e e' : Entry RelativePath FileColumns) : Prop where
  first : a.find path = some e
  second : b.find path = some e'
  scope : inScope c path = true

/-- What an equality message promises of a path of both databases. -/
def Established (columns columns' : FileColumns) : Prop :=
  (∃ digest, columns.sha512 = some digest ∧ columns'.sha512 = some digest) ∨
    (describesEmpty columns ∧ describesEmpty columns')

def claimsEquality (lines : List CompareLine) : Prop :=
  .allChecksumsIdentical ∈ lines ∨ .absolutelyEqual ∈ lines

theorem claims_iff (hcompare : c.compare = true) (hquiet : script.signal.arrival = none)
    (hok : (dbCompare c script f a b).status = successStatus) :
    claimsEquality (dbCompare c script f a b).lines ↔ f.checks .checksumMismatch = true ∧
      ∀ path, inScope c path = true → ¬ InCategory .checksumMismatch a b path := by
  obtain ⟨hbelongs,hstart,hcomplete⟩ := message_outside .checksums
  obtain ⟨hbelongs',hstart',hcomplete'⟩ := message_outside (.equal .checksumMismatch)
  have hempty : f.checks .checksumMismatch = true → ((!(selectedPaths c f .checksumMismatch a b).isEmpty) = false ↔
      ∀ path, inScope c path = true → ¬ InCategory .checksumMismatch a b path) := by
    intro hchecks
    rw [Bool.not_eq_false',List.isEmpty_iff,List.eq_nil_iff_forall_not_mem]
    simp only [mem_selected,hchecks,true_and,not_and]
  unfold claimsEquality
  rw [dbCompare_summary hcompare hquiet hok hbelongs hstart hcomplete,
    dbCompare_summary hcompare hquiet hok hbelongs' hstart' hcomplete',mem_compareSummary,mem_compareSummary]
  constructor
  · intro hline
    have hclaim : f.checks .checksumMismatch = true ∧ (!(selectedPaths c f .checksumMismatch a b).isEmpty) = false := by
      rcases hline with hline | hline
      · simpa using hline
      · simp only [reduceCtorEq,false_and,false_or,true_and] at hline
        obtain ⟨hfull,-,-,hnone⟩ := hline
        simp only [CompareFilter.full,Bool.and_eq_true] at hfull
        exact ⟨hfull.2,hnone⟩
    exact ⟨hclaim.1,(hempty hclaim.1).mp hclaim.2⟩
  · rintro ⟨hchecks,hnone⟩
    exact .inl (.inr (.inr (.inr (.inl ⟨rfl,hchecks,(hempty hchecks).mpr hnone⟩))))

/-- An uninterrupted comparison never claims an equality that was not established, except
that rows without a digest of files that are not empty count as equal. -/
theorem comparison_sound_iff (hcompare : c.compare = true) (hquiet : script.signal.arrival = none) :
    ((dbCompare c script f a b).status ≠ successStatus → ¬ claimsEquality (dbCompare c script f a b).lines) ∧
    ((dbCompare c script f a b).status = successStatus →
      ((claimsEquality (dbCompare c script f a b).lines →
          ∀ path e e', CommonPath c a b path e e' → Established e.value e'.value) ↔
        f.checks .checksumMismatch = false ∨
        (∃ path e e', CommonPath c a b path e e' ∧ e.value.sha512 ≠ e'.value.sha512) ∨
        ∀ path e e', CommonPath c a b path e e' → e.value.sha512 = none → e'.value.sha512 = none →
          describesEmpty e.value ∧ describesEmpty e'.value)) := by
  constructor
  · rintro hfail (hline | hline)
    · obtain ⟨hbelongs,hstart,hcomplete⟩ := message_outside .checksums
      exact dbCompare_failed hcompare hquiet hfail hbelongs hstart hcomplete hline
    · obtain ⟨hbelongs,hstart,hcomplete⟩ := message_outside (.equal .checksumMismatch)
      exact dbCompare_failed hcompare hquiet hfail hbelongs hstart hcomplete hline
  · intro hok
    rw [claims_iff hcompare hquiet hok]
    constructor
    · intro hsound
      by_cases hchecks : f.checks .checksumMismatch = true
      · by_cases hdiffers : ∃ path e e', CommonPath c a b path e e' ∧ e.value.sha512 ≠ e'.value.sha512
        · exact .inr (.inl hdiffers)
        · refine .inr (.inr ?_)
          intro path e e' hcommon hnone _
          have hclaimed : ∀ path, inScope c path = true → ¬ InCategory .checksumMismatch a b path := by
            rintro path hscope ⟨e,e',hfind,hfind',hne⟩
            exact hdiffers ⟨path,e,e',⟨hfind,hfind',hscope⟩,hne⟩
          rcases hsound ⟨hchecks,hclaimed⟩ path e e' hcommon with ⟨digest,hdigest,-⟩ | hempty
          · rw [hnone] at hdigest
            cases hdigest
          · exact hempty
      · exact .inl (by simpa using hchecks)
    · rintro hcondition ⟨hchecks,hnone⟩ path e e' hcommon
      have hsame : e.value.sha512 = e'.value.sha512 := by
        by_contra hne
        exact hnone path hcommon.scope ⟨e,e',hcommon.first,hcommon.second,hne⟩
      rcases hcondition with hunchecked | ⟨path,e,e',hdiffers,hne⟩ | hempty
      · rw [hchecks] at hunchecked
        cases hunchecked
      · exact absurd ⟨e,e',hdiffers.first,hdiffers.second,hne⟩ (hnone path hdiffers.scope)
      · cases hdigest : e.value.sha512 with
        | some digest => exact .inl ⟨digest,hdigest,hsame ▸ hdigest⟩
        | none => exact .inr (hempty path e e' hcommon hdigest (hsame ▸ hdigest))

def comparing : Config := { compare := true }

/-- One path whose row is complete in the first database and half hashed in the second. -/
def completeRow : FilesTable := .singleton 1 [97] ⟨none,some (Vector.replicate 64 1),none,none⟩

/-- One path whose file has one byte and whose row has no digest. -/
def unhashedRow : FilesTable :=
  .singleton 1 [97] ⟨none,none,some (CmpctStat.mk 1 8 1 1 1 0 1 0).toBytes,none⟩

theorem comparison_exact_rows :
    let lines := (dbCompare comparing {} {} completeRow unhashedRow).lines
    (∀ category,
      (listed category lines).Nodup ∧ (listed category lines).Pairwise (· ≤ ·) ∧
      ∀ path, path ∈ listed category lines ↔ ({} : CompareFilter).checks category = true ∧
        inScope comparing path = true ∧ InCategory category completeRow unhashedRow path) ∧
    listed .checksumMismatch lines = [[97]] :=
  ⟨(comparison_exact rfl rfl (by decide +kernel)).1,by decide +kernel⟩

theorem comparison_sound_rows :
    (claimsEquality (dbCompare comparing {} {} completeRow unhashedRow).lines →
        ∀ path e e', CommonPath comparing completeRow unhashedRow path e e' → Established e.value e'.value) ↔
      ({} : CompareFilter).checks .checksumMismatch = false ∨
      (∃ path e e', CommonPath comparing completeRow unhashedRow path e e' ∧ e.value.sha512 ≠ e'.value.sha512) ∨
      ∀ path e e', CommonPath comparing completeRow unhashedRow path e e' → e.value.sha512 = none → e'.value.sha512 = none →
        describesEmpty e.value ∧ describesEmpty e'.value :=
  (comparison_sound_iff rfl rfl).2 (by decide +kernel)

/-- Two rows without a digest, of files of one byte, are reported as identical. -/
theorem equality_unestablished :
    let r := dbCompare comparing {} {} unhashedRow unhashedRow
    r.status = successStatus ∧ .allChecksumsIdentical ∈ r.lines ∧ .absolutelyEqual ∈ r.lines ∧
      ∃ path e e', CommonPath comparing unhashedRow unhashedRow path e e' ∧ ¬ Established e.value e'.value := by
  refine ⟨by decide +kernel,by decide +kernel,by decide +kernel,[97],_,_,⟨rfl,rfl,rfl⟩,?_⟩
  rintro (⟨digest,hdigest,-⟩ | ⟨⟨blob,hblob,hsize⟩,-⟩)
  · cases hdigest
  · cases hblob
    revert hsize
    decide +kernel

end Precizer.Guarantees

import Precizer.Traversal.TraversedScope
import Precizer.Pipeline.Run
import Precizer.Database.ComparisonRules
import Precizer.Database.CleanupRules

/-! # The scope of a traversal

The patterns decide about a regular file by its own path, except that the first include or
lock pattern also opens the subtrees of ignored directories: without such a pattern a
traversal does not descend into them.
-/
namespace Precizer.Guarantees
open General Rational Digest Traversal Database Pipeline

/-- The pass went over all of its entries. -/
structure PassCompletes (c : Config) (script : PassScript) (s : Session) : Prop where
  goes : (fileList c script s).continueTheLoop = true
  quiet : (fileList c script s).interrupted = false

/-- The pass as it comes to the entry after those before it. -/
def stateAt (c : Config) (q : Pass) (before : List Visit) : Pass :=
  before.foldl (traverseStep c) { q with skipBelow := none }

def Below (before : List Visit) (v d : Visit) : Prop := Above (fun w : Visit => w.entry.level) before d v.entry.level

/-- A regular file that a walk lists after some entries; all directories above it are readable. -/
structure ReachableFile (root : RootScript) (before : List Visit) (v : Visit) : Prop where
  listed : ∃ after, root.visits = before ++ v :: after
  info : v.entry.info = .file
  readable : ∀ d, Below before v d → d.access = .accessAllowed

def PathInScope (c : Config) (path : RelativePath) : Prop :=
  c.locked path = true ∨ (matchIncludeIgnore c false path).ignored = false

def UnderIgnored (c : Config) (before : List Visit) (v : Visit) : Prop :=
  ∃ d, Below before v d ∧ d.entry.info = .directory ∧ (matchIncludeIgnore c false d.entry.path).ignored = true

/-- An include or a lock pattern was given. -/
def OpensIgnored (c : Config) : Prop := c.includeSpecified = true ∨ c.lockChecksumSpecified = true

/-- One more include or lock pattern, which matches no path. -/
inductive AddsUnmatched (c : Config) : Config → Prop
  | included (first rest : List Pattern) (pattern : Pattern) (hall : c.includePatterns = first ++ rest)
      (hno : ∀ path, pattern path = .notMatch) :
      AddsUnmatched c { c with includePatterns := first ++ pattern :: rest }
  | locked (first rest : List Pattern) (pattern : Pattern) (hall : c.lockChecksumPatterns = first ++ rest)
      (hno : ∀ path, pattern path = .notMatch) :
      AddsUnmatched c { c with lockChecksumPatterns := first ++ pattern :: rest }

section Patterns

variable {c c' : Config}

theorem matchPatterns_unmatched {pattern : Pattern} (hno : ∀ path, pattern path = .notMatch) (path : RelativePath)
    (first rest : List Pattern) :
    matchPatterns false path (first ++ pattern :: rest) = matchPatterns false path (first ++ rest) := by
  induction first with
  | nil =>
    rw [List.nil_append,matchPatterns,matchRegexp,if_neg (by decide),hno]
    rfl
  | cons q first ih =>
    rw [List.cons_append,List.cons_append,matchPatterns,matchPatterns,ih]

/-- The added pattern changes no decision about a path. -/
theorem AddsUnmatched.same (h : AddsUnmatched c c') (path : RelativePath) :
    c'.locked path = c.locked path ∧ matchIncludeIgnore c' false path = matchIncludeIgnore c false path := by
  cases h with
  | included first rest pattern hall hno =>
    refine ⟨rfl,?_⟩
    have hinclude : matchIncludePattern { c with includePatterns := first ++ pattern :: rest } false path =
        matchIncludePattern c false path := by
      rw [matchIncludePattern,matchIncludePattern,hall]
      exact matchPatterns_unmatched hno path first rest
    unfold matchIncludeIgnore
    rw [hinclude]
    rfl
  | locked first rest pattern hall hno =>
    refine ⟨?_,rfl⟩
    have hlock : matchChecksumLockPattern { c with lockChecksumPatterns := first ++ pattern :: rest } false path =
        matchChecksumLockPattern c false path := by
      rw [matchChecksumLockPattern,matchChecksumLockPattern,hall]
      exact matchPatterns_unmatched hno path first rest
    rw [Config.locked,hlock,Config.locked]

theorem AddsUnmatched.opens (h : AddsUnmatched c c') : OpensIgnored c' := by
  cases h with
  | included first rest pattern =>
    left
    simp [Config.includeSpecified]
  | locked first rest pattern =>
    right
    simp [Config.lockChecksumSpecified]

theorem AddsUnmatched.maxdepth (h : AddsUnmatched c c') : c'.maxdepth = c.maxdepth := by
  cases h <;> rfl

end Patterns

section Scope

variable {c : Config} {script : PassScript} {s : Session} {root : RootScript} {q : Pass} {before : List Visit} {v : Visit}

theorem ReachableFile.skips_iff (h : ReachableFile root before v) :
    (∀ d, Below before v d → ¬ SkipsSubtree c d) ↔ OpensIgnored c ∨ ¬ UnderIgnored c before v := by
  unfold OpensIgnored
  constructor
  · intro hnone
    by_cases hopens : c.includeSpecified = true ∨ c.lockChecksumSpecified = true
    · exact .inl hopens
    · right
      rintro ⟨d,hbelow,hinfo,hignored⟩
      simp only [not_or,Bool.not_eq_true] at hopens
      exact hnone d hbelow ⟨hinfo,by rw [if_pos hignored]; exact hopens⟩
  · rintro (hopens | hnone) d hbelow ⟨hinfo,hskips⟩
    · split at hskips
      · rcases hopens with hinclude | hlock
        · rw [hskips.1] at hinclude
          cases hinclude
        · rw [hskips.2] at hlock
          cases hlock
      · exact hskips.1 (h.readable d hbelow)
    · split at hskips
      · rename_i hignored
        exact hnone ⟨d,hbelow,hinfo,hignored⟩
      · exact hskips.1 (h.readable d hbelow)

theorem reachable_processes (hdepth : c.maxdepth = none) (hpass : PassCompletes c script s)
    (hroot : (root,q) ∈ passRoots c script s) (hfile : ReachableFile root before v) :
    Processes c (stateAt c q before) v ↔
      PathInScope c v.entry.path ∧ (OpensIgnored c ∨ ¬ UnderIgnored c before v) := by
  obtain ⟨after,hlisted⟩ := hfile.listed
  obtain ⟨hgoes,hint⟩ := fileList_goes hpass.goes hpass.quiet (root,q) hroot
  dsimp only at hgoes hint
  rw [hlisted] at hgoes hint
  rw [← hfile.skips_iff]
  exact walk_processes (p := { q with skipBelow := none }) hdepth hgoes hint rfl hfile.info

/-- Lying under an ignored directory depends on the tree and on the decisions only. -/
theorem UnderIgnored.found {c' : Config} {before' : List Visit} {v' : Visit}
    (hsame : ∀ path, matchIncludeIgnore c' false path = matchIncludeIgnore c false path)
    (hbefore : before.map Visit.found = before'.map Visit.found) (hv : v.found = v'.found)
    (h : UnderIgnored c before v) : UnderIgnored c' before' v' := by
  obtain ⟨d,hbelow,hinfo,hignored⟩ := h
  have hentry : v.entry = v'.entry := congrArg TreeEntry.entry hv
  have habove : Above (fun e : TreeEntry => e.entry.level) (before.map Visit.found) d.found v.entry.level :=
    above_map.mpr ⟨d,rfl,hbelow⟩
  rw [hbefore,hentry] at habove
  obtain ⟨d',hd',hbelow'⟩ := above_map.mp habove
  have hsameEntry : d'.entry = d.entry := congrArg TreeEntry.entry hd'
  exact ⟨d',hbelow',by rw [hsameEntry]; exact hinfo,by rw [hsame,hsameEntry]; exact hignored⟩

/-- A reachable file is processed exactly when its path is locked or not ignored and, without
an include or lock pattern, no directory above it is ignored. One more such pattern that
matches nothing opens the ignored directories if it is the first one, and changes nothing
otherwise. What is left out elsewhere is what the cleanup and the comparison ignore. -/
theorem traversal_scope {c : Config} {script : PassScript} {s : Session} {root : RootScript} {q : Pass}
    {before : List Visit} {v : Visit} (hdepth : c.maxdepth = none) (hpass : PassCompletes c script s)
    (hroot : (root,q) ∈ passRoots c script s) (hfile : ReachableFile root before v) :
    (Processes c (stateAt c q before) v ↔
      PathInScope c v.entry.path ∧ (OpensIgnored c ∨ ¬ UnderIgnored c before v)) ∧
    (∀ c' script' s' root' q' before' v', AddsUnmatched c c' → PassCompletes c' script' s' →
      (root',q') ∈ passRoots c' script' s' → ReachableFile root' before' v' →
      before.map Visit.found = before'.map Visit.found → v.found = v'.found →
      (Processes c' (stateAt c' q' before') v' ↔ Processes c (stateAt c q before) v ∨
        (¬ OpensIgnored c ∧ UnderIgnored c before v ∧ PathInScope c v.entry.path))) ∧
    (Processes c (stateAt c q before) v → c.locked v.entry.path = true ∨
      (inScope c v.entry.path = true ∧ (rowScope c v.entry.path).ignored = false)) ∧
    (¬ Processes c (stateAt c q before) v → (¬ OpensIgnored c ∧ UnderIgnored c before v) ∨
      (inScope c v.entry.path = false ∧ (rowScope c v.entry.path).ignored = true)) := by
  have hprocesses := reachable_processes hdepth hpass hroot hfile
  refine ⟨hprocesses,?_,?_,?_⟩
  · intro c' script' s' root' q' before' v' hadds hpass' hroot' hfile' hbefore hv
    have hentry : v.entry = v'.entry := congrArg TreeEntry.entry hv
    have hscope : PathInScope c' v'.entry.path ↔ PathInScope c v.entry.path := by
      obtain ⟨hlocked,hmatch⟩ := hadds.same v'.entry.path
      rw [PathInScope,PathInScope,hlocked,hmatch,hentry]
    rw [reachable_processes (hadds.maxdepth.trans hdepth) hpass' hroot' hfile',hprocesses,hscope]
    have hopens := hadds.opens
    tauto
  · intro h
    rcases (hprocesses.mp h).1 with hlocked | hvisible
    · exact .inl hlocked
    · right
      rw [inScope,rowScope_ignored,hvisible]
      exact ⟨rfl,rfl⟩
  · intro h
    rw [hprocesses,not_and_or] at h
    rcases h with hout | hunder
    · right
      unfold PathInScope at hout
      simp only [not_or,Bool.not_eq_true,Bool.not_eq_false] at hout
      rw [inScope,rowScope_ignored,hout.2]
      exact ⟨rfl,rfl⟩
    · left
      simpa only [not_or,not_not] using hunder

end Scope

section Pruned

/-- Ignores the path `c` and nothing else. -/
def ignoresDirectory : Pattern := fun path => if path = [99] then .regexpMatch else .notMatch

def prunedDirectory : Visit :=
  .plain { level := 1, info := .directory, path := [99], statp := (FtsEntry.plain [99] 0 0).statp } (.plain [])

/-- The file `c/a`. -/
def prunedFile : Visit := .plain { FtsEntry.plain [99,47,97] 1 0 with level := 2 } (.plain [1])

def prunedScript : PassScript := .plain [prunedDirectory,prunedFile]

def prunedRoot : RootScript := ⟨true,true,[prunedDirectory,prunedFile],true⟩

def prunedConfig : Config := { ignorePatterns := [ignoresDirectory], update := true }

theorem prunedFile_reachable : ReachableFile prunedRoot [prunedDirectory] prunedFile where
  listed := ⟨[],rfl⟩
  info := rfl
  readable := by
    rintro d ⟨earlier,later,hlisted,-⟩
    cases earlier with
    | nil =>
      obtain ⟨rfl,-⟩ := List.cons.inj hlisted
      rfl
    | cons u earlier =>
      obtain ⟨-,hrest⟩ := List.cons.inj hlisted
      cases earlier <;> cases hrest

def prunedSession : Session := openSession .empty []

theorem pruned_completes : PassCompletes prunedConfig prunedScript prunedSession :=
  ⟨by decide +kernel,by decide +kernel⟩

theorem pruned_walked : (prunedRoot,passStart prunedScript prunedSession) ∈ passRoots prunedConfig prunedScript prunedSession :=
  List.mem_cons_self

/-- Without the opening patterns the scope of a path is not the whole rule. -/
theorem pruned_file : ¬ ∀ (c : Config) (script : PassScript) (s : Session) (root : RootScript) (q : Pass)
    (before : List Visit) (v : Visit), c.maxdepth = none → PassCompletes c script s → (root,q) ∈ passRoots c script s →
    ReachableFile root before v → (Processes c (stateAt c q before) v ↔ PathInScope c v.entry.path) := by
  intro hclaim
  have hprocessed := (hclaim prunedConfig prunedScript prunedSession prunedRoot (passStart prunedScript prunedSession)
    [prunedDirectory] prunedFile rfl pruned_completes pruned_walked prunedFile_reachable).mpr (.inr rfl)
  have hunmet : meetsFile prunedConfig (stateAt prunedConfig (passStart prunedScript prunedSession) [prunedDirectory])
      prunedFile = false := by decide +kernel
  rw [hprocessed.1] at hunmet
  cases hunmet

theorem traversal_scope_pruned :
    Processes prunedConfig (stateAt prunedConfig (passStart prunedScript prunedSession) [prunedDirectory]) prunedFile ↔
      PathInScope prunedConfig prunedFile.entry.path ∧
        (OpensIgnored prunedConfig ∨ ¬ UnderIgnored prunedConfig [prunedDirectory] prunedFile) :=
  (traversal_scope rfl pruned_completes pruned_walked prunedFile_reachable).1

end Pruned

end Precizer.Guarantees

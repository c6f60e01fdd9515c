import Precizer.Database.FilesTable
import Precizer.Rational.Return

/-! # Options and path patterns

A compiled pattern is the function it computes on a path. A match asks for the
length of the path first, and that request fails once the halt is visible: an
interrupted match is literally a pattern error.
-/
namespace Precizer.Traversal
open Rational Database

inductive Regexp where
  | regexpMatch
  | notMatch
  | regexpError
  deriving DecidableEq

abbrev Pattern := RelativePath → Regexp

/-- The options of a run; an empty pattern list is an option that was not given. -/
structure Config where
  compare : Bool := false
  update : Bool := false
  dryRun : Bool := false
  dryRunWithChecksums : Bool := false
  force : Bool := false
  watchTimestamps : Bool := false
  rehashLocked : Bool := false
  dbDropIgnored : Bool := false
  dbDropInaccessible : Bool := false
  quietIgnored : Bool := false
  maxdepth : Option ℕ := none
  ignorePatterns : List Pattern := []
  includePatterns : List Pattern := []
  lockChecksumPatterns : List Pattern := []

def Config.includeSpecified (c : Config) : Bool := !c.includePatterns.isEmpty

def Config.lockChecksumSpecified (c : Config) : Bool := !c.lockChecksumPatterns.isEmpty

def matchRegexp (halted : Bool) (pattern : Pattern) (path : RelativePath) : Regexp :=
  if halted then .regexpError else pattern path

/-- The first pattern that does not fail to match decides. -/
def matchPatterns (halted : Bool) (path : RelativePath) : List Pattern → Regexp
  | [] => .notMatch
  | pattern :: rest =>
    match matchRegexp halted pattern path with
    | .regexpMatch => .regexpMatch
    | .regexpError => .regexpError
    | .notMatch => matchPatterns halted path rest

def matchIgnorePattern (c : Config) (halted : Bool) (path : RelativePath) : Regexp :=
  matchPatterns halted path c.ignorePatterns

def matchIncludePattern (c : Config) (halted : Bool) (path : RelativePath) : Regexp :=
  matchPatterns halted path c.includePatterns

def matchChecksumLockPattern (c : Config) (halted : Bool) (path : RelativePath) : Regexp :=
  matchPatterns halted path c.lockChecksumPatterns

/-- The visibility of a path: whether the check succeeded, `include` and `ignore`. -/
structure Scope where
  ok : Bool
  included : Bool
  ignored : Bool
  deriving DecidableEq

def matchIncludeIgnore (c : Config) (halted : Bool) (path : RelativePath) : Scope :=
  match matchIncludePattern c halted path with
  | .notMatch =>
    match matchIgnorePattern c halted path with
    | .regexpMatch => ⟨true,false,true⟩
    | .regexpError => ⟨false,false,false⟩
    | .notMatch => ⟨true,false,false⟩
  | .regexpError => ⟨false,false,false⟩
  | .regexpMatch => ⟨true,true,false⟩

/-- `halted` is the halt as the match sees it, `returned` as the final `provide` does. -/
def pathCheckLockedChecksum (c : Config) (halted returned : Bool) (path : RelativePath) : Return :=
  provide (globalReturnStatus returned) <|
    match matchChecksumLockPattern c halted path with
    | .regexpError => failureStatus.union { no := true }
    | .regexpMatch => successStatus.union { yes := true }
    | .notMatch => successStatus.union { no := true }

/-- The path matches a `--lock-checksum` pattern. -/
def Config.locked (c : Config) (path : RelativePath) : Bool :=
  matchChecksumLockPattern c false path = .regexpMatch

theorem matchPatterns_halted (halted : Bool) (path : RelativePath) (patterns : List Pattern) :
    matchPatterns halted path patterns = matchPatterns false path patterns ∨
      matchPatterns halted path patterns = .regexpError := by
  cases halted with
  | false => exact .inl rfl
  | true =>
    cases patterns with
    | nil => exact .inl rfl
    | cons => exact .inr rfl

theorem matchPatterns_of_ne_error {halted : Bool} {path : RelativePath} {patterns : List Pattern}
    (h : matchPatterns halted path patterns ≠ .regexpError) :
    matchPatterns halted path patterns = matchPatterns false path patterns := by
  rcases matchPatterns_halted halted path patterns with heq | herror
  · exact heq
  · exact absurd herror h

/-- A scope that was settled is the one the patterns give. -/
theorem matchIncludeIgnore_of_ok {c : Config} {halted : Bool} {path : RelativePath}
    (h : (matchIncludeIgnore c halted path).ok = true) :
    matchIncludeIgnore c halted path = matchIncludeIgnore c false path := by
  have hinclude : matchIncludePattern c halted path = matchIncludePattern c false path := by
    apply matchPatterns_of_ne_error
    intro herror
    have herror : matchIncludePattern c halted path = .regexpError := herror
    simp [matchIncludeIgnore,herror] at h
  unfold matchIncludeIgnore at h ⊢
  rw [hinclude] at h ⊢
  cases hmatch : matchIncludePattern c false path with
  | regexpMatch => rfl
  | regexpError => rfl
  | notMatch =>
    have hignore : matchIgnorePattern c halted path = matchIgnorePattern c false path := by
      apply matchPatterns_of_ne_error
      intro herror
      have herror : matchIgnorePattern c halted path = .regexpError := herror
      simp [hmatch,herror] at h
    dsimp only
    rw [hignore]

theorem pathCheckLockedChecksum_eq (c : Config) (halted returned : Bool) (path : RelativePath) :
    pathCheckLockedChecksum c halted returned path =
      answer (matchChecksumLockPattern c halted path ≠ .regexpError)
        (matchChecksumLockPattern c halted path = .regexpMatch) returned := by
  unfold pathCheckLockedChecksum
  cases matchChecksumLockPattern c halted path <;> cases returned <;> decide

end Precizer.Traversal

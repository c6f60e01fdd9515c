import Precizer.Settings.ArgumentRules

/-! # Accepted settings

A command line that passes the final checks names roots to scan, or two databases to compare, and
never both. Normalized paths have no slash at their end, the root directory aside.
-/
namespace Precizer.Settings
open General Database

/-- What the final checks establish. -/
structure Complete (c : Config) : Prop where
  scan : c.compare = false → c.roots ≠ [] ∧ c.compareFilter.specified = false
  comparison : c.compare = true → c.dbFilePaths.length = 2

def mainEvent (line : CommandLine) (hasEntries : Bool) (event : Event) : ParseState → ParseState × ErrorT :=
  parseOpt event.key event.arg ⟨event.quoted,line.bare,hasEntries⟩

theorem parseOpt_ok {key : Key} {arg : Option Text} {state : ArgpState} {s : ParseState}
    (h : (parseOpt key arg state s).2 = .ok) : parseOpt key arg state s = parseKey key arg state s := by
  unfold parseOpt at h ⊢
  split at h
  · cases h
  · rename_i hquoted
    exact if_neg hquoted

theorem warnings_config (s : ParseState) :
    (warnings s).config = s.config ∧ (warnings s).informationModeRequested = s.informationModeRequested := by
  unfold warnings
  dsimp only
  split_ifs <;> exact ⟨rfl,rfl⟩

/-- The last call checks what the mode needs. -/
theorem finish_accepted {state : ArgpState} {s : ParseState} (h : (parseOpt .finish none state s).2 = .ok)
    (hinformation : (parseOpt .finish none state s).1.informationModeRequested = false) :
    (parseOpt .finish none state s).1.config = s.config ∧ s.informationModeRequested = false ∧
      (s.config.compare = false → s.config.compareFilter.specified = false) ∧
      (s.config.compare = true → s.config.dbFilePaths.length = 2) := by
  have hkeyed : parseOpt .finish none state s = parseFinish s := parseOpt_ok h
  rw [hkeyed] at h hinformation ⊢
  unfold parseFinish at h hinformation ⊢
  split at h
  · rename_i hinformed
    rw [if_pos hinformed] at hinformation
    rw [hinformation] at hinformed
    cases hinformed
  rename_i hinformed
  rw [if_neg hinformed] at hinformation ⊢
  split at h
  · cases h
  rename_i hfilter
  rw [if_neg hfilter] at hinformation ⊢
  split at h
  · cases h
  rename_i hfew
  rw [if_neg hfew] at hinformation ⊢
  split at h
  · cases h
  rename_i hmany
  rw [if_neg hmany] at hinformation ⊢
  refine ⟨(warnings_config s).1,Bool.eq_false_iff.mpr hinformed,?_,?_⟩
  · intro hcompare
    exact Bool.eq_false_iff.mpr fun hspecified => hfilter ⟨hspecified,hcompare⟩
  · intro hcompare
    have hatLeast : ¬s.config.dbFilePaths.length < 2 := fun hless => hfew ⟨hcompare,hless⟩
    have hatMost : ¬2 < s.config.dbFilePaths.length := fun hless => hmany ⟨hcompare,hless⟩
    omega

/-- Without operands the paths must have been given otherwise. -/
theorem noArguments_accepted {state : ArgpState} {s : ParseState} (h : (parseOpt .noArguments none state s).2 = .ok)
    (hinformation : (parseOpt .noArguments none state s).1.informationModeRequested = false) :
    (parseOpt .noArguments none state s).1.config = s.config ∧ (s.config.compare = false → s.config.roots ≠ []) := by
  have hkeyed : parseOpt .noArguments none state s = parseNoArguments state s := parseOpt_ok h
  rw [hkeyed] at h hinformation ⊢
  unfold parseNoArguments at h hinformation ⊢
  split at h
  · rename_i hinformed
    rw [if_pos hinformed] at hinformation
    rw [hinformation] at hinformed
    cases hinformed
  rename_i hinformed
  rw [if_neg hinformed] at hinformation ⊢
  split at h
  · rename_i hpaths
    rw [if_pos hpaths]
    refine ⟨rfl,?_⟩
    intro hcompare
    rcases hpaths with ⟨-,hroots⟩ | ⟨hcompared,-⟩
    · exact hroots
    · rw [hcompare] at hcompared
      cases hcompared
  rename_i hpaths
  rw [if_neg hpaths] at hinformation
  split at h
  · rename_i hbare
    rw [if_pos hbare] at hinformation
    cases hinformation
  · split at h <;> cases h

theorem operand_accepted {state : ArgpState} {s : ParseState} {operand : Text}
    (h : (parseOpt .argument (some operand) state s).2 = .ok) :
    (parseOpt .argument (some operand) state s).1.config.compare = false →
      (parseOpt .argument (some operand) state s).1.config.roots ≠ [] := by
  have hkeyed : parseOpt .argument (some operand) state s = parsePath .argument operand s := parseOpt_ok h
  rw [hkeyed] at h ⊢
  unfold parsePath at h ⊢
  split at h
  · rename_i hdatabase
    rw [if_pos hdatabase,set_config]
    intro hcompare
    exact absurd (hdatabase.2.symm.trans hcompare) (fun heq => by cases heq)
  rename_i hdatabase
  rw [if_neg hdatabase]
  split at h
  · cases h
  rename_i hne
  rw [if_neg hne,set_config]
  exact fun _ => List.append_ne_nil_of_right_ne_nil _ (List.cons_ne_nil operand [])

theorem complete_mainPass {line : CommandLine} {hasEntries : Bool} {s : ParseState}
    (h : (argpParse (mainEvent line hasEntries) line s).2 = .ok)
    (hinformation : (argpParse (mainEvent line hasEntries) line s).1.informationModeRequested = false) :
    Complete (argpParse (mainEvent line hasEntries) line s).1.config := by
  obtain ⟨hmalformed,haccepted,hstate⟩ := argpParse_ok h
  rw [hstate] at hinformation ⊢
  have hevents : line.events = line.options.map (fun option => ⟨option.1,option.2,false⟩) ++
      (line.operands.map (fun operand => ⟨.argument,some operand,line.quoted⟩) ++
        ((if line.operands = [] then [⟨.noArguments,none,line.quoted⟩] else []) ++ [⟨.finish,none,line.quoted⟩])) := by
    rw [CommandLine.events,hmalformed,if_neg Bool.false_ne_true,List.append_assoc]
  rw [hevents] at haccepted hinformation ⊢
  obtain ⟨-,haccepted,hstate⟩ := stoppedFold_append_accepted haccepted
  rw [hstate] at hinformation ⊢
  clear hstate
  set afterOptions := (stoppedFold (argpStep (mainEvent line hasEntries)) (s,.ok)
    (line.options.map (fun option => ⟨option.1,option.2,false⟩))).1
  obtain ⟨hoperands,haccepted,hstate⟩ := stoppedFold_append_accepted haccepted
  rw [hstate] at hinformation ⊢
  clear hstate
  set afterOperands := (stoppedFold (argpStep (mainEvent line hasEntries)) afterOptions
    (line.operands.map (fun operand => ⟨.argument,some operand,line.quoted⟩))).1 with hafter
  obtain ⟨hnone,haccepted,hstate⟩ := stoppedFold_append_accepted haccepted
  rw [hstate] at hinformation ⊢
  clear hstate
  obtain ⟨hfinish,hstate⟩ := stoppedFold_cons_accepted haccepted
  rw [hstate,stoppedFold_nil] at hinformation ⊢
  have hfinished := finish_accepted (of_decide_eq_true hfinish) hinformation
  obtain ⟨hconfig,hinformed,hfilter,hdatabases⟩ := hfinished
  have hfinal : (argpStep (mainEvent line hasEntries) (stoppedFold (argpStep (mainEvent line hasEntries)) afterOperands
      (if line.operands = [] then [⟨.noArguments,none,line.quoted⟩] else [])).1 ⟨.finish,none,line.quoted⟩).1.1.config =
      (stoppedFold (argpStep (mainEvent line hasEntries)) afterOperands
        (if line.operands = [] then [⟨.noArguments,none,line.quoted⟩] else [])).1.1.config := hconfig
  rw [hfinal]
  refine ⟨fun hcompare => ⟨?_,hfilter hcompare⟩,hdatabases⟩
  rcases List.eq_nil_or_concat line.operands with hnil | ⟨operands,operand,hoperand⟩
  · rw [if_pos hnil] at hnone hinformed hcompare ⊢
    obtain ⟨hstep,hstate⟩ := stoppedFold_cons_accepted hnone
    rw [hstate,stoppedFold_nil] at hinformed hcompare ⊢
    obtain ⟨hconfig,hroots⟩ := noArguments_accepted (of_decide_eq_true hstep) hinformed
    have hsame : (argpStep (mainEvent line hasEntries) afterOperands ⟨.noArguments,none,line.quoted⟩).1.1.config =
        afterOperands.1.config := hconfig
    rw [hsame] at hcompare ⊢
    exact hroots hcompare
  · have hne : line.operands ≠ [] := by
      rw [hoperand]
      simp
    rw [if_neg hne,stoppedFold_nil] at hcompare ⊢
    rw [hafter,hoperand,List.concat_eq_append,List.map_append] at hcompare ⊢
    rw [hoperand,List.concat_eq_append,List.map_append] at hoperands
    obtain ⟨-,hlast,hstate⟩ := stoppedFold_append_accepted hoperands
    rw [hstate] at hcompare ⊢
    obtain ⟨hstep,hstate⟩ := stoppedFold_cons_accepted hlast
    rw [List.map_cons,List.map_nil] at hcompare ⊢
    rw [List.map_nil] at hstate
    rw [hstate,stoppedFold_nil] at hcompare ⊢
    exact operand_accepted (of_decide_eq_true hstep) hcompare

/-- No slash at the end, except that of the root directory. -/
def Normalized (path : Text) : Prop := path = [slash] ∨ path.getLast? ≠ some slash

theorem normalized_removeTrailingSlash (path : Text) : Normalized (removeTrailingSlash path) := by
  cases path with
  | nil => exact .inr (fun h => by cases h)
  | cons c rest =>
    rw [removeTrailingSlash]
    by_cases hnil : rest.rdropWhile (· = slash) = []
    · rw [hnil]
      by_cases hslash : c = slash
      · exact .inl (by rw [hslash])
      · refine .inr ?_
        rw [List.getLast?_singleton,Ne,Option.some.injEq]
        exact hslash
    · refine .inr ?_
      have hlast := List.rdropWhile_last_not (fun d : UInt8 => d = slash) rest hnil
      rw [List.getLast?_cons,List.getLast?_eq_some_getLast hnil,Option.getD_some,Ne,Option.some.injEq]
      exact of_decide_eq_false (Bool.eq_false_iff.mpr hlast)

theorem removeTrailingSlash_ne_nil {path : Text} (h : path ≠ []) : removeTrailingSlash path ≠ [] := by
  cases path with
  | nil => exact absurd rfl h
  | cons c rest => exact List.cons_ne_nil _ _

/-- Settings that the program runs with. -/
structure Runnable (c : Config) : Prop where
  scan : c.compare = false → c.roots ≠ [] ∧ c.dbFilePaths = [] ∧ c.dbFileNames = [] ∧ c.compareFilter.specified = false
  comparison : c.compare = true → c.roots = [] ∧ c.dbFilePaths.length = 2 ∧ c.dbFileNames = c.dbFilePaths.map basename
  roots : ∀ root ∈ c.roots, root ≠ [] ∧ Normalized root
  databases : ∀ path ∈ c.dbFilePaths, Normalized path
  maxdepth : c.maxdepth = -1 ∨ (0 ≤ c.maxdepth ∧ c.maxdepth ≤ 32767)
  included : c.includeSpecified = !c.includePaths.isEmpty
  checksums : c.dryRunWithChecksums = true → c.dryRun = true
  remembered : c.showRememberedMessagesAtExit = c.progress
  database : (c.dbPrimaryFilePath = [] ∧ c.dbFileName = []) ∨ c.dbFileName = basename c.dbPrimaryFilePath

theorem runnable_normalizePaths {c : Config} (hvalid : Valid c) (hcomplete : Complete c) : Runnable (normalizePaths c) := by
  unfold normalizePaths
  cases hcompare : c.compare with
  | false =>
    obtain ⟨hroots,hfilter⟩ := hcomplete.scan hcompare
    rw [if_neg Bool.false_ne_true]
    refine ⟨fun _ => ⟨?_,hvalid.databases hcompare,hvalid.names,hfilter⟩,?_,?_,?_,hvalid.maxdepth,hvalid.included,
      hvalid.checksums,hvalid.remembered,hvalid.database⟩
    · exact fun hnil => hroots (List.map_eq_nil_iff.mp hnil)
    · intro htrue
      cases htrue
    · intro root hroot
      obtain ⟨given,hgiven,rfl⟩ := List.mem_map.mp hroot
      exact ⟨removeTrailingSlash_ne_nil (hvalid.roots given hgiven),normalized_removeTrailingSlash given⟩
    · intro path hpath
      have hpath : path ∈ c.dbFilePaths := hpath
      rw [hvalid.databases hcompare] at hpath
      cases hpath
  | true =>
    have hdatabases := hcomplete.comparison hcompare
    rw [if_pos rfl]
    refine ⟨?_,fun _ => ⟨rfl,?_,?_⟩,?_,?_,hvalid.maxdepth,hvalid.included,hvalid.checksums,hvalid.remembered,hvalid.database⟩
    · intro hfalse
      cases hfalse
    · rw [List.length_map,hdatabases]
    · rw [hvalid.names,List.nil_append]
    · exact fun root hroot => absurd hroot List.not_mem_nil
    · intro path hpath
      obtain ⟨given,-,rfl⟩ := List.mem_map.mp hpath
      exact normalized_removeTrailingSlash given

end Precizer.Settings

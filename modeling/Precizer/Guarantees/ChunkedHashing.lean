import Precizer.Digest.Sha512Calls

/-! # Hashing in chunks

However a message is divided into chunks, and wherever the context is copied between two of them,
the digest is that of the whole message. The bit counter does not wrap, and a call that is refused
changes nothing.
-/
namespace Precizer.Guarantees
open General Digest

/-- What happens to the context between initialisation and finalisation. -/
inductive HashStep
  | update (chunk : Option (List UInt8))
  | copy

def HashStep.run (md : SHA512Context) : HashStep → SHA512Context
  | .update chunk => ((sha512UpdateAt (some md) chunk).2).getD md
  | .copy => .ofImage md.image

def runSteps (start : SHA512Context) (steps : List HashStep) : SHA512Context := steps.foldl HashStep.run (sha512Init start)

def givenBytes (steps : List HashStep) : List UInt8 :=
  steps.flatMap fun step =>
    match step with
    | .update chunk => chunk.getD []
    | .copy => []

/-- The message after a step; a chunk that is too long for the counter is left out. -/
def acceptStep (message : List UInt8) : HashStep → List UInt8
  | .update (some chunk) => if 8 * (message.length + chunk.length) < 2 ^ 64 then message ++ chunk else message
  | .update none => message
  | .copy => message

def acceptedBytes (steps : List HashStep) : List UInt8 := steps.foldl acceptStep []

structure ChunkedHash (start : SHA512Context) (steps : List HashStep) : Prop where
  whole : 8 * (givenBytes steps).length < 2 ^ 64 → acceptedBytes steps = givenBytes steps
  counter : (runSteps start steps).length.toNat + 8 * (runSteps start steps).curlen = 8 * (acceptedBytes steps).length
  bounded : 8 * (acceptedBytes steps).length < 2 ^ 64
  accepts : ∀ chunk, (sha512UpdateAt (some (runSteps start steps)) (some chunk)).1 = .cryptOk ↔
    8 * ((acceptedBytes steps).length + chunk.length) < 2 ^ 64
  digest : ∀ out, ∃ md, sha512FinalAt (some (runSteps start steps)) (some out) =
    (.cryptOk,some md,some (Standard.sha512 (acceptedBytes steps))) ∧ md.length.toNat = 8 * (acceptedBytes steps).length

structure CallRules (md : Option SHA512Context) (input : Option (List UInt8)) (out : Option Sha512Digest) : Prop where
  updateAccepted : (sha512UpdateAt md input).1 = .cryptOk ↔
    ∃ context bytes, md = some context ∧ input = some bytes ∧ context.curlen < 128 ∧ context.Fits bytes.length
  updateCounter : ∀ context bytes, md = some context → input = some bytes → (sha512UpdateAt md input).1 = .cryptOk →
    ∃ context', (sha512UpdateAt md input).2 = some context' ∧
      context'.length.toNat + 8 * context'.curlen = context.length.toNat + 8 * (context.curlen + bytes.length)
  updateRefused : (sha512UpdateAt md input).1 ≠ .cryptOk → (sha512UpdateAt md input).2 = md
  finalAccepted : (sha512FinalAt md out).1 = .cryptOk ↔
    ∃ context digest, md = some context ∧ out = some digest ∧ context.curlen < 128 ∧ context.Fits 0
  finalCounter : ∀ context, md = some context → (sha512FinalAt md out).1 = .cryptOk →
    ∃ context', (sha512FinalAt md out).2.1 = some context' ∧
      context'.length.toNat = context.length.toNat + 8 * context.curlen
  finalRefused : (sha512FinalAt md out).1 ≠ .cryptOk → (sha512FinalAt md out).2 = (md,out)

theorem sha512FinalAt_status (md : SHA512Context) (out : Sha512Digest) :
    (sha512FinalAt (some md) (some out)).1 = (sha512Final md).1 ∧
      (sha512FinalAt (some md) (some out)).2.1 = some (sha512Final md).2.1 ∧
        ((sha512Final md).1 = .cryptOk → (sha512FinalAt (some md) (some out)).2.2 = some (sha512Final md).2.2) ∧
          ((sha512Final md).1 ≠ .cryptOk → (sha512FinalAt (some md) (some out)).2.2 = some out) := by
  rw [sha512FinalAt]
  obtain ⟨status,md',digest⟩ := sha512Final md
  cases status with
  | cryptOk => exact ⟨rfl,rfl,fun _ => rfl,fun h => absurd rfl h⟩
  | cryptInvalidArg => exact ⟨rfl,rfl,nofun,fun _ => rfl⟩
  | cryptHashOverflow => exact ⟨rfl,rfl,nofun,fun _ => rfl⟩

theorem callRules (md : Option SHA512Context) (input : Option (List UInt8)) (out : Option Sha512Digest) :
    CallRules md input out := by
  constructor
  · constructor
    · intro haccepted
      match md,input with
      | none,_ => cases haccepted
      | some _,none => cases haccepted
      | some context,some bytes =>
        have hstatus : (sha512Update context bytes).1 = .cryptOk := haccepted
        rw [update_status,check_iff] at hstatus
        exact ⟨context,bytes,rfl,rfl,hstatus⟩
    · rintro ⟨context,bytes,rfl,rfl,hfits⟩
      show (sha512Update context bytes).1 = .cryptOk
      rw [update_status,check_iff]
      exact hfits
  · rintro context bytes rfl rfl haccepted
    have hstatus : (sha512Update context bytes).1 = .cryptOk := haccepted
    have hupdate : sha512Update context bytes = (.cryptOk,(sha512Update context bytes).2) := by rw [← hstatus]
    obtain ⟨-,hinUse,-⟩ := update_ok hupdate
    have hbits := (update_continues (.refl hinUse) hupdate).bits
    rw [List.nil_append] at hbits
    exact ⟨(sha512Update context bytes).2,rfl,hbits⟩
  · intro hrefused
    match md,input with
    | none,_ => rfl
    | some _,none => rfl
    | some context,some bytes =>
      show some (sha512Update context bytes).2 = some context
      rw [update_unchanged hrefused]
  · constructor
    · intro haccepted
      match md,out with
      | none,_ => cases haccepted
      | some _,none => cases haccepted
      | some context,some digest =>
        rw [(sha512FinalAt_status context digest).1,final_status,check_iff] at haccepted
        exact ⟨context,digest,rfl,rfl,haccepted⟩
    · rintro ⟨context,digest,rfl,rfl,hfits⟩
      rw [(sha512FinalAt_status context digest).1,final_status,check_iff]
      exact hfits
  · rintro context rfl haccepted
    match out with
    | none => cases haccepted
    | some digest =>
      obtain ⟨hstatus,hcontext,-⟩ := sha512FinalAt_status context digest
      rw [hstatus] at haccepted
      exact ⟨_,hcontext,final_length haccepted⟩
  · intro hrefused
    match md,out with
    | none,_ => rfl
    | some _,none => rfl
    | some context,some digest =>
      obtain ⟨hstatus,hcontext,-,hout⟩ := sha512FinalAt_status context digest
      rw [hstatus] at hrefused
      rw [Prod.ext_iff,hcontext,hout hrefused,final_unchanged hrefused]
      exact ⟨rfl,rfl⟩

theorem HashStep.run_represents {md : SHA512Context} {message : List UInt8} (h : Represents md message)
    (hbounded : 8 * message.length < 2 ^ 64) (step : HashStep) :
    Represents (step.run md) (acceptStep message step) ∧ 8 * (acceptStep message step).length < 2 ^ 64 := by
  match step with
  | .copy =>
    have hcurlen : md.curlen < 2 ^ 64 := by
      rw [h.curlen]
      omega
    rw [HashStep.run,acceptStep,ofImage_image hcurlen]
    exact ⟨h,hbounded⟩
  | .update none => exact ⟨h,hbounded⟩
  | .update (some chunk) =>
    have hcheck := check_represents h chunk.length
    have hrun : (HashStep.update (some chunk)).run md = (sha512Update md chunk).2 := rfl
    rw [hrun,acceptStep]
    split
    · next hfits =>
      have hupdate : sha512Update md chunk = (.cryptOk,(sha512Update md chunk).2) := by
        rw [← hcheck.mpr hfits,← update_status]
      refine ⟨update_represents h hupdate,?_⟩
      rw [List.length_append]
      exact hfits
    · next hlong =>
      have hrefused : (sha512Update md chunk).1 ≠ .cryptOk := by
        rw [update_status]
        exact fun hok => hlong (hcheck.mp hok)
      rw [update_unchanged hrefused]
      exact ⟨h,hbounded⟩

theorem foldl_represents (steps : List HashStep) {md : SHA512Context} {message : List UInt8} (h : Represents md message)
    (hbounded : 8 * message.length < 2 ^ 64) :
    Represents (steps.foldl HashStep.run md) (steps.foldl acceptStep message) ∧
      8 * (steps.foldl acceptStep message).length < 2 ^ 64 := by
  induction steps generalizing md message with
  | nil => exact ⟨h,hbounded⟩
  | cons step steps ih =>
    obtain ⟨hnext,hnextBounded⟩ := HashStep.run_represents h hbounded step
    exact ih hnext hnextBounded

theorem foldl_acceptStep (steps : List HashStep) {message : List UInt8}
    (h : 8 * (message ++ givenBytes steps).length < 2 ^ 64) : steps.foldl acceptStep message = message ++ givenBytes steps := by
  induction steps generalizing message with
  | nil => simp [givenBytes]
  | cons step steps ih =>
    have hgiven : givenBytes (step :: steps) = givenBytes [step] ++ givenBytes steps := by
      simp [givenBytes]
    rw [hgiven,← List.append_assoc] at h ⊢
    have hstep : acceptStep message step = message ++ givenBytes [step] := by
      match step with
      | .copy => simp [acceptStep,givenBytes]
      | .update none => simp [acceptStep,givenBytes]
      | .update (some chunk) =>
        have hchunk : givenBytes [.update (some chunk)] = chunk := by simp [givenBytes]
        rw [hchunk,List.length_append,List.length_append] at h
        rw [hchunk,acceptStep,if_pos (by omega)]
    rw [List.foldl_cons,hstep]
    exact ih h

theorem chunkedHash (start : SHA512Context) (steps : List HashStep) : ChunkedHash start steps := by
  obtain ⟨hrepresents,hbounded⟩ := foldl_represents steps (init_represents start) (by simp)
  have hstream := (represents_iff start _ _).mp hrepresents
  have hcounter : (runSteps start steps).length.toNat + 8 * (runSteps start steps).curlen =
      8 * (acceptedBytes steps).length := by
    have hbits := hstream.bits
    have hstart : (sha512Init start).length.toNat = 0 ∧ (sha512Init start).curlen = 0 := ⟨rfl,rfl⟩
    rw [hstart.1,hstart.2,Nat.zero_add,Nat.zero_add] at hbits
    exact hbits
  constructor
  · intro hshort
    exact foldl_acceptStep steps (by simpa using hshort)
  · exact hcounter
  · exact hbounded
  · intro chunk
    show (sha512Update (runSteps start steps) chunk).1 = .cryptOk ↔ _
    rw [update_status]
    exact check_represents hrepresents chunk.length
  · intro out
    obtain ⟨hstatus,hcontext,hdigest,-⟩ := sha512FinalAt_status (runSteps start steps) out
    have hok : (sha512Final (runSteps start steps)).1 = .cryptOk := by
      rw [final_status]
      exact (check_represents hrepresents 0).mpr hbounded
    have hfinal : sha512Final (runSteps start steps) =
        (.cryptOk,(sha512Final (runSteps start steps)).2.1,(sha512Final (runSteps start steps)).2.2) := by
      rw [← hok]
    have hmessage := final_represents hrepresents hfinal
    refine ⟨(sha512Final (runSteps start steps)).2.1,?_,?_⟩
    · rw [Prod.ext_iff,Prod.ext_iff,hstatus,hcontext,hdigest hok,hok,hmessage,sha512_standard]
      exact ⟨rfl,rfl,rfl⟩
    · rw [final_length hok]
      exact hcounter

/-- The digest does not depend on the chunks, the counter counts all bits, and refused calls change nothing. -/
theorem hashing_independent_of_chunks :
    (∀ start steps, ChunkedHash start steps) ∧ ∀ md input out, CallRules md input out :=
  ⟨chunkedHash,callRules⟩

end Precizer.Guarantees

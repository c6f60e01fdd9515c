import Precizer.Digest.Sha512Stream

/-! # Resuming a stream

A digest depends on the context it starts from and on the bytes that follow, not on the
pieces in which they arrive and not on the place at which a stored context takes over.
-/
namespace Precizer.Digest
open General

/-- The digest a finalisation writes, if it is accepted. -/
def SHA512Context.digest (md : SHA512Context) : Option Sha512Digest :=
  match sha512Final md with
  | (.cryptOk,_,digest) => some digest
  | _ => none

/-- The digest after the bytes were given to the context, if they are accepted. -/
def sha512From (md : SHA512Context) (m : List UInt8) : Option Sha512Digest :=
  match sha512Update md m with
  | (.cryptOk,md') => md'.digest
  | _ => none

theorem digest_some {md md' : SHA512Context} {digest : Sha512Digest}
    (h : sha512Final md = (.cryptOk,md',digest)) : md.digest = some digest := by
  rw [SHA512Context.digest,h]

theorem digest_none {md : SHA512Context} (h : sha512CheckAvailableBytes md 0 ≠ .cryptOk) : md.digest = none := by
  unfold SHA512Context.digest
  split
  · rename_i md' digest hfin
    exact absurd (final_ok hfin) h
  · rfl

/-- Finalisation reads of the buffer only the bytes that are in use. -/
theorem digest_congr {md md' : SHA512Context} (hlt : md.curlen < 128) (hlength : md.length = md'.length)
    (hstate : md.state = md'.state) (hcurlen : md.curlen = md'.curlen) (hpending : md.pending = md'.pending) :
    md.digest = md'.digest := by
  have hcheck : sha512CheckAvailableBytes md 0 = sha512CheckAvailableBytes md' 0 := by
    unfold sha512CheckAvailableBytes
    rw [hlength,hcurlen]
  have hmark := markedBuffer hlt
  have hmark' := markedBuffer (hcurlen ▸ hlt)
  have hmarked : (fillBuffer md.buf md.curlen [0x80]).toList.take (md.curlen + 1) =
      (fillBuffer md'.buf md.curlen [0x80]).toList.take (md.curlen + 1) := by
    rw [hmark,hpending,← hmark',hcurlen]
  have hlong : (fillBuffer (fillBuffer md.buf md.curlen [0x80]) (md.curlen + 1)
        (List.replicate (128 - (md.curlen + 1)) 0)).toList =
      (fillBuffer (fillBuffer md'.buf md.curlen [0x80]) (md.curlen + 1)
        (List.replicate (128 - (md.curlen + 1)) 0)).toList := by
    have hfill : md.curlen + 1 + (List.replicate (128 - (md.curlen + 1)) (0 : UInt8)).length = 128 := by
      rw [List.length_replicate]
      omega
    rw [fillBuffer_full _ _ hfill,fillBuffer_full _ _ hfill,hmarked]
  have hlast (buf buf' : Vector UInt8 128) (length : ℕ) :
      (fillBuffer (fillBuffer buf 0 (List.replicate (120 - 0) 0)) 120 (beBytes 8 length)).toList =
      (fillBuffer (fillBuffer buf' 0 (List.replicate (120 - 0) 0)) 120 (beBytes 8 length)).toList := by
    rw [closingBlock _ _ (Nat.zero_le _),closingBlock _ _ (Nat.zero_le _),List.take_zero,List.take_zero]
  unfold SHA512Context.digest sha512Final
  rw [← hcheck,← hlength,← hstate,← hcurlen]
  cases sha512CheckAvailableBytes md 0 with
  | cryptInvalidArg => rfl
  | cryptHashOverflow => rfl
  | cryptOk =>
    dsimp only
    by_cases hroom : 112 < md.curlen + 1
    · simp only [hroom,↓reduceIte]
      rw [hlong,hlast]
    · simp only [hroom,↓reduceIte]
      rw [closingBlock _ _ (by omega),closingBlock _ _ (by omega),hmarked]

section Continues

variable {md₀ md md' : SHA512Context} {m m' : List UInt8}

/-- Two contexts that continue one stream by the same bytes differ at most in buffer bytes
that are not in use. -/
theorem Continues.unique (h : Continues md₀ md m) (h' : Continues md₀ md' m) :
    md.length = md'.length ∧ md.state = md'.state ∧ md.curlen = md'.curlen ∧ md.pending = md'.pending := by
  have hstream := h.stream.symm.trans h'.stream
  simp only [Prod.mk.injEq] at hstream
  refine ⟨?_,hstream.1,h.curlen.trans h'.curlen.symm,hstream.2⟩
  apply UInt64.toNat_inj.mp
  rw [h.length,h'.length]

theorem Continues.trans (h : Continues md₀ md m) (h' : Continues md md' m') :
    Continues md₀ md' (m ++ m') := by
  have hcur := h.curlen
  have hcur' := h'.curlen
  have hlen := h.length
  have hlen' := h'.length
  refine ⟨h.inUse,?_,?_,?_⟩
  · rw [← List.append_assoc,absorb_append,h.stream]
    exact h'.stream
  · simp only [List.length_append]
    omega
  · simp only [List.length_append]
    omega

theorem update_refused (h : Continues md₀ md m) {piece : List UInt8}
    (hupd : ∀ md', sha512Update md piece ≠ (.cryptOk,md')) : ¬ md₀.Fits (m.length + piece.length) := by
  intro hfits
  apply hupd (updateLoop md h.curlen_lt piece)
  rw [sha512Update,(check_continues h piece.length).mpr hfits]
  simp [h.curlen_lt]

theorem sha512From_unfit (h : md.curlen < 128) (hfits : ¬ md.Fits m.length) : sha512From md m = none := by
  have hcheck := check_continues (.refl h) m.length
  rw [List.length_nil,Nat.zero_add] at hcheck
  unfold sha512From
  split
  · rename_i md' hupd
    exact absurd (hcheck.mp (update_ok hupd).1) hfits
  · rfl

/-- The digest of a stream is read off every context that has absorbed it. -/
theorem Continues.digest (h : Continues md₀ md m) : sha512From md₀ m = md.digest := by
  by_cases hfits : md₀.Fits m.length
  · have hstart := Continues.refl h.inUse
    have hcheck : sha512CheckAvailableBytes md₀ m.length = .cryptOk := by
      rw [check_continues hstart,List.length_nil,Nat.zero_add]
      exact hfits
    have hupd : sha512Update md₀ m = (.cryptOk,updateLoop md₀ h.inUse m) := by
      rw [sha512Update,hcheck]
      simp [h.inUse]
    have hother := update_continues hstart hupd
    obtain ⟨hlength,hstate,hcurlen,hpending⟩ := hother.unique h
    rw [sha512From,hupd]
    exact digest_congr hother.curlen_lt hlength hstate hcurlen hpending
  · rw [sha512From_unfit h.inUse hfits,digest_none]
    rw [Ne,check_continues h,Nat.add_zero]
    exact hfits

theorem Continues.digest_isSome (h : Continues md₀ md m) (hfits : md₀.Fits m.length) :
    ∃ digest, md.digest = some digest := by
  have hcheck : sha512CheckAvailableBytes md 0 = .cryptOk := by
    rw [check_continues h,Nat.add_zero]
    exact hfits
  have hfin : sha512Final md = (.cryptOk,(sha512Final md).2.1,(sha512Final md).2.2) := by
    unfold sha512Final
    rw [hcheck]
  exact ⟨_,digest_some hfin⟩

/-- A stored context takes over: what follows it decides the digest. -/
theorem Continues.resume (h : Continues md₀ md m) (m' : List UInt8) :
    sha512From md m' = sha512From md₀ (m ++ m') := by
  cases hupd : sha512Update md m' with
  | mk status md' =>
    by_cases hok : status = .cryptOk
    · subst hok
      have hstep := update_continues (.refl h.curlen_lt) hupd
      rw [List.nil_append] at hstep
      rw [(h.trans hstep).digest,hstep.digest]
    · have hrefused : ∀ md', sha512Update md m' ≠ (.cryptOk,md') := by
        intro md'' hsame
        rw [hupd] at hsame
        exact hok (Prod.mk.inj hsame).1
      have hunfit := update_refused h hrefused
      have hleft := update_refused (.refl h.curlen_lt) hrefused
      rw [sha512From_unfit h.curlen_lt (by simpa using hleft),
        sha512From_unfit h.inUse (by simpa using hunfit)]

theorem Continues.refused (h : Continues md₀ md m) {piece : List UInt8}
    (hupd : ∀ md', sha512Update md piece ≠ (.cryptOk,md')) (rest : List UInt8) :
    sha512From md₀ (m ++ (piece ++ rest)) = none := by
  have hunfit := update_refused h hupd
  apply sha512From_unfit h.inUse
  unfold SHA512Context.Fits at hunfit ⊢
  simp only [List.length_append]
  omega

end Continues

theorem update_damaged {md md' : SHA512Context} {m : List UInt8} (h : ¬ md.curlen < 128) :
    sha512Update md m ≠ (.cryptOk,md') := by
  intro hupd
  exact h (update_ok hupd).2.1

theorem sha512From_damaged {md : SHA512Context} {m : List UInt8} (h : ¬ md.curlen < 128) :
    sha512From md m = none := by
  unfold sha512From
  split
  · rename_i md' hupd
    exact absurd hupd (update_damaged h)
  · rfl

theorem digest_damaged {md : SHA512Context} (h : ¬ md.curlen < 128) : md.digest = none := by
  apply digest_none
  unfold sha512CheckAvailableBytes
  rw [if_pos (by omega)]
  decide

theorem sha512From_init (md : SHA512Context) (m : List UInt8) :
    sha512From (sha512Init md) m = if 8 * m.length < 2 ^ 64 then some (sha512 m) else none := by
  have hinit := (represents_iff md (sha512Init md) []).mp (init_represents md)
  have hfits : (sha512Init md).Fits m.length ↔ 8 * m.length < 2 ^ 64 := by
    simp [SHA512Context.Fits,sha512Init]
  split
  · rename_i hlt
    cases hupd : sha512Update (sha512Init md) m with
    | mk status md' =>
      by_cases hok : status = .cryptOk
      · subst hok
        have hrep : Represents md' m := by simpa using update_represents (init_represents md) hupd
        obtain ⟨digest,hdigest⟩ := Continues.digest_isSome ((represents_iff md md' m).mp hrep) (hfits.mpr hlt)
        rw [sha512From,hupd]
        dsimp only
        rw [hdigest]
        unfold SHA512Context.digest at hdigest
        split at hdigest
        · rename_i md'' digest' hfin
          rw [← Option.some.inj hdigest,final_represents hrep hfin]
        · cases hdigest
      · have hrefused : ∀ md', sha512Update (sha512Init md) m ≠ (.cryptOk,md') := by
          intro md'' hsame
          rw [hupd] at hsame
          exact hok (Prod.mk.inj hsame).1
        exact absurd (hfits.mpr hlt) (by simpa using update_refused hinit hrefused)
  · rename_i hge
    exact sha512From_unfit (Nat.zero_lt_succ _) (fun h => hge (hfits.mp h))

end Precizer.Digest

import Precizer.Logger.Line

/-! # Terminal safety

Whatever a log line contains, what reaches the terminal consists of characters a terminal only
displays and of whole sequences of the decoration table.
-/
namespace Precizer.Guarantees
open Logger

/-- Every escape byte starts a whole sequence of the table, no other control byte occurs but
newline, carriage return and tab, the bytes outside the inserted sequences are the UTF-8
encoding of characters that are no controls, and without styling nothing is escaped. -/
structure TerminalSafe (stylesEnabled : Bool) (written : List Byte) : Prop where
  escapes : ∀ before after, written = before ++ escByte :: after →
    ∃ s ∈ decorations.map Prod.snd, s <+: escByte :: after
  controls : ∀ b ∈ written, b.toNat < 0x20 → b = 10 ∨ b = 13 ∨ b = 9 ∨ b = escByte
  text : Displayed (insertable stylesEnabled) written
  plain : stylesEnabled = false → escByte ∉ written

theorem decorations_escapes : ∀ s ∈ decorations.map Prod.snd, ∀ j < s.length,
    s[j]? = some escByte → s.drop j ∈ decorations.map Prod.snd := by
  decide +kernel

theorem decorations_controls : ∀ s ∈ decorations.map Prod.snd, ∀ b ∈ s, b.toNat < 0x20 → b = escByte := by
  decide +kernel

theorem permitted_controls {c : Char} (h : Permitted c) :
    ∀ b ∈ String.utf8EncodeChar c, b.toNat < 0x20 → b = 10 ∨ b = 13 ∨ b = 9 := by
  intro b hb hcontrol
  by_cases hascii : c.val.toNat < 0x80
  · rw [utf8EncodeChar_ascii hascii,List.mem_singleton] at hb
    have hvalue : b.toNat = c.val.toNat := by rw [hb,toNat_ofNat (by omega)]
    unfold Permitted at h
    rw [← UInt8.toNat_inj,← UInt8.toNat_inj,← UInt8.toNat_inj]
    change b.toNat = 10 ∨ b.toNat = 13 ∨ b.toNat = 9
    omega
  · have hhigh := utf8EncodeChar_high (Nat.le_of_not_lt hascii) b hb
    omega

theorem permitted_escapes {c : Char} (h : Permitted c) : escByte ∉ String.utf8EncodeChar c := by
  intro hmem
  rcases permitted_controls h escByte hmem (by decide) with hb | hb | hb <;> exact absurd hb (by decide)

theorem insertable_subset (stylesEnabled : Bool) : insertable stylesEnabled ⊆ decorations.map Prod.snd := by
  cases stylesEnabled with
  | false => exact List.nil_subset _
  | true => exact List.Subset.refl _

theorem displayed_escapes {sequences : List (List Byte)} (hsequences : sequences ⊆ decorations.map Prod.snd)
    {segments : List Segment} (hsafe : ∀ s ∈ segments, s.Safe sequences) {before after : List Byte}
    (h : segments.flatMap Segment.bytes = before ++ escByte :: after) :
    ∃ s ∈ decorations.map Prod.snd, s <+: escByte :: after := by
  induction segments generalizing before with
  | nil => simp at h
  | cons segment rest ih =>
    have hrest := fun s hs => hsafe s (List.mem_cons_of_mem _ hs)
    rw [List.flatMap_cons] at h
    rcases List.append_eq_append_iff.mp h with ⟨skipped,rfl,hlater⟩ | ⟨inside,hsegment,hlater⟩
    · exact ih hrest hlater
    · cases inside with
      | nil => exact @ih hrest [] hlater.symm
      | cons x inside =>
        obtain ⟨rfl,rfl⟩ := List.cons.inj hlater
        have hsegmentSafe := hsafe segment List.mem_cons_self
        cases segment with
        | character c =>
          refine absurd ?_ (permitted_escapes hsegmentSafe)
          change escByte ∈ (Segment.character c).bytes
          rw [hsegment]
          exact List.mem_append_right before List.mem_cons_self
        | sequence s =>
          have hs : s = before ++ escByte :: inside := hsegment
          have hinside := decorations_escapes s (hsequences hsegmentSafe) before.length
            (by rw [hs,List.length_append,List.length_cons]; omega)
            (by rw [hs,List.getElem?_append_right (Nat.le_refl _),Nat.sub_self]; rfl)
          rw [hs,List.drop_left] at hinside
          exact ⟨escByte :: inside,hinside,⟨rest.flatMap Segment.bytes,rfl⟩⟩

theorem displayed_controls {sequences : List (List Byte)} (hsequences : sequences ⊆ decorations.map Prod.snd)
    {written : List Byte} (h : Displayed sequences written) :
    ∀ b ∈ written, b.toNat < 0x20 → b = 10 ∨ b = 13 ∨ b = 9 ∨ b = escByte := by
  obtain ⟨segments,hsafe,rfl⟩ := h
  intro b hb hcontrol
  obtain ⟨segment,hsegment,hmem⟩ := List.mem_flatMap.mp hb
  cases segment with
  | character c =>
    rcases permitted_controls (hsafe _ hsegment) b hmem hcontrol with h | h | h
    · exact .inl h
    · exact .inr (.inl h)
    · exact .inr (.inr (.inl h))
  | sequence s =>
    exact .inr (.inr (.inr (decorations_controls s (hsequences (hsafe _ hsegment)) b hmem hcontrol)))

theorem displayed_plain {written : List Byte} (h : Displayed [] written) : escByte ∉ written := by
  obtain ⟨segments,hsafe,rfl⟩ := h
  intro hmem
  obtain ⟨segment,hsegment,hbyte⟩ := List.mem_flatMap.mp hmem
  cases segment with
  | character c => exact permitted_escapes (hsafe _ hsegment) hbyte
  | sequence s => exact absurd (hsafe _ hsegment) List.not_mem_nil

/-- For every mode, every call with any payload and any success of its allocations, what is
written to the terminal is safe. -/
theorem terminal_safety (loggerMode : LogModes) (memory : LineMemory) (stylesEnabled callback : Bool)
    (call : LogCall) :
    TerminalSafe stylesEnabled (rationalLogger loggerMode memory stylesEnabled callback call).terminal := by
  have hdisplayed := rationalLogger_displayed loggerMode memory stylesEnabled callback call
  refine ⟨?_,displayed_controls (insertable_subset stylesEnabled) hdisplayed,hdisplayed,?_⟩
  · intro before after hwritten
    obtain ⟨segments,hsafe,hsegments⟩ := hdisplayed
    exact displayed_escapes (insertable_subset stylesEnabled) hsafe (hsegments.symm.trans hwritten)
  · rintro rfl
    exact displayed_plain hdisplayed

end Precizer.Guarantees

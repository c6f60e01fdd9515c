import Precizer.Logger.PlainText

/-! # Plain and colored wording

Removing the markers and replacing them by terminal sequences give the same wording exactly
when deleting all markers at once forms no new marker.
-/
namespace Precizer.Guarantees
open Logger

theorem sanitized_escape (line : List Byte) : escByte ∉ sanitized line := by
  intro hmem
  obtain ⟨characters,hpermitted,hbytes⟩ := sanitized_text line
  rw [hbytes] at hmem
  obtain ⟨c,hc,hbyte⟩ := List.mem_flatMap.mp hmem
  by_cases hascii : c.val.toNat < 0x80
  · rw [utf8EncodeChar_ascii hascii,List.mem_singleton] at hbyte
    have hvalue : escByte.toNat = c.val.toNat := by rw [hbyte,toNat_ofNat (by omega)]
    have hescape : escByte.toNat = 27 := rfl
    have hallowed := hpermitted c hc
    unfold Permitted at hallowed
    omega
  · have hhigh := utf8EncodeChar_high (Nat.le_of_not_lt hascii) escByte hbyte
    exact absurd hhigh (by decide)

/-- For every sanitized text whose markup succeeded in both modes: the plain result is the colored
one without its sequences and neither contains a marker, if and only if the text whose markers
are all deleted at once contains none. -/
theorem plain_wording_iff (line : List Byte) (reallocated : Bool) (plain colored : List Byte)
    (hplain : rationalLoggerMarkupReplace reallocated false (sanitized line) = some plain)
    (hcolored : rationalLoggerMarkupReplace reallocated true (sanitized line) = some colored) :
    (withoutSequences colored = plain ∧ MarkerFree plain ∧ MarkerFree colored) ↔
      MarkerFree (withoutMarkers (sanitized line)) := by
  obtain ⟨hstripped,hunmarked⟩ := styled_colored (sanitized_escape line)
  rw [replaceDecorations_sound hplain,replaceDecorations_sound hcolored]
  constructor
  · rintro ⟨hsame,hfree,-⟩
    rw [← hstripped,hsame]
    exact hfree
  · intro hfree
    rw [hstripped,styled_plain hfree]
    exact ⟨rfl,hfree,hunmarked⟩

/-- A red word between plain words. -/
theorem plain_wording_red :
    (withoutSequences (ascii "a " ++ red ++ ascii "b" ++ resetSequence) = ascii "a b" ∧ MarkerFree (ascii "a b") ∧
      MarkerFree (ascii "a " ++ red ++ ascii "b" ++ resetSequence)) ↔
      MarkerFree (withoutMarkers (sanitized (ascii "a @\x7bred\x7db@\x7breset\x7d"))) :=
  plain_wording_iff (ascii "a @\x7bred\x7db@\x7breset\x7d") false (ascii "a b")
    (ascii "a " ++ red ++ ascii "b" ++ resetSequence) (by decide +kernel) (by decide +kernel)

/-- Fragments around a marker: without styles they join to another marker, which is removed in
one case and kept in the other; with styles they stay apart. -/
theorem plain_wording_joined :
    (∃ plain colored,
      rationalLoggerMarkupReplace false false (sanitized (ascii "@\x7bre@\x7breset\x7dd\x7d")) = some plain ∧
      rationalLoggerMarkupReplace false true (sanitized (ascii "@\x7bre@\x7breset\x7dd\x7d")) = some colored ∧
      withoutSequences colored ≠ plain) ∧
    ∃ plain, rationalLoggerMarkupReplace false false (sanitized (ascii "@\x7bre@\x7bwhite\x7dd\x7d")) = some plain ∧
      ¬ MarkerFree plain := by
  refine ⟨⟨[],ascii "@\x7bre" ++ resetSequence ++ ascii "d\x7d",by decide +kernel,by decide +kernel,by decide +kernel⟩,
    marker "red",by decide +kernel,?_⟩
  intro hfree
  exact hfree (marker "red",red) (by decide +kernel) (List.infix_refl _)

end Precizer.Guarantees

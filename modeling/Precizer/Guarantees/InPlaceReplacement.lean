import Precizer.Logger.InPlaceReplacement

/-! # Replacement in place

The replacement inside one allocation equals its definition, whatever the matches look like.
-/
namespace Precizer.Guarantees
open General Logger

/-- For every text of exact length without NUL bytes, every nonempty search string, every
replacement and every allocator the call stays within its block. It succeeds with the text in
which each leftmost occurrence is replaced once, terminated and with its exact length, or it
fails with everything unchanged, because the size overflows or the allocator refuses. -/
theorem replaced_in_place (realloc : ℕ → Option (ℕ → Byte)) (search replacement content spare : List Byte)
    (hfree : 0 ∉ content) (hsearch : search ≠ []) :
    ∃ done result, replaceAllInPlace realloc search replacement ⟨content ++ 0 :: spare,content.length⟩ =
        some (done,result) ∧
      (done = true → ∃ written rest, Replaced search replacement content written ∧
        result = ⟨written ++ 0 :: rest,written.length⟩) ∧
      (done = false → result = ⟨content ++ 0 :: spare,content.length⟩) ∧
      (done = false ↔ content.length = sizeMax ∨
        content.length < (replaceAll search replacement content).length ∧
          (sizeMax ≤ (replaceAll search replacement content).length ∨
            realloc ((replaceAll search replacement content).length + 1) = none)) := by
  have href := @replaceAllInPlace_eq search replacement realloc content spare hfree
  have hrefused := @rationalLoggerReplaceAll_eq_none search replacement content hsearch
    (realloc ((replaceAll search replacement content).length + 1)).isSome
  cases hresult : rationalLoggerReplaceAll (realloc ((replaceAll search replacement content).length + 1)).isSome
      search replacement content with
  | none =>
    rw [hresult] at href
    refine ⟨false,_,href,by simp,fun _ => rfl,?_⟩
    rw [hresult] at hrefused
    simpa using hrefused
  | some written =>
    rw [hresult] at href
    obtain ⟨rest,href⟩ := href
    refine ⟨true,_,href,fun _ => ⟨written,rest,?_,rfl⟩,by simp,?_⟩
    · rw [rationalLoggerReplaceAll_sound hresult]
      exact replaced_replaceAll hsearch content
    · rw [hresult] at hrefused
      simpa using hrefused

/-- A growing text whose replacement contains the search string. -/
theorem replaced_in_place_growing :
    (0 : Byte) ∉ ([97,98,97] : List Byte) ∧ ([97] : List Byte) ≠ [] ∧
      replaceAllInPlace (fun _ => some fun _ => 7) [97] [97,97] ⟨[97,98,97,0],3⟩ =
        some (true,⟨[97,97,98,97,97,0],5⟩) ∧
      ∃ done result, replaceAllInPlace (fun _ => some fun _ => 7) [97] [97,97] ⟨[97,98,97] ++ 0 :: [],3⟩ =
        some (done,result) := by
  refine ⟨by decide,by decide,by decide +kernel,?_⟩
  obtain ⟨done,result,h,-⟩ := replaced_in_place (fun _ => some fun _ => 7) [97] [97,97] [97,98,97] [] (by decide)
    (by decide)
  exact ⟨done,result,h⟩

end Precizer.Guarantees

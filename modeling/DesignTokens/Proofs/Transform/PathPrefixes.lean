import DesignTokens.Proofs.Token.Path
import DesignTokens.Transform.Matcher

/-!
# Prefixes of paths

Two tests tell the paths below another one. `Path.isWithin` looks at the texts: the other path and,
if anything follows, a separator. A matcher looks at the segments. Both mean that the segments of
one path begin with those of the other, and a matcher passes over the empty segments of its prefix.
-/

namespace DesignTokens
namespace Path

variable {path ancestor : String}

/-! ## The test of texts -/

/-- The segments below an ancestor are those that the rest is split into. -/
theorem segments_append_dot (h : ancestor ≠ "") (rest : String) :
    segments (ancestor ++ "." ++ rest) = segments ancestor ++ Text.split '.' rest := by
  have hne : ancestor ++ "." ++ rest ≠ "" := by
    intro heq
    simpa using congrArg String.toList heq
  rw [segments, segments, if_neg hne, if_neg h]
  exact Text.split_append rfl ancestor rest

/-- Segments put together in two parts have a dot between them. -/
theorem ofSegments_append {front back : List String} (hfront : front ≠ []) (hback : back ≠ []) :
    ofSegments (front ++ back) = ofSegments front ++ "." ++ ofSegments back :=
  String.intercalate_append_of_ne_nil hfront hback

/-- A path within another is that path, or goes on with a separator. -/
theorem isWithin_iff_eq_or_append (h : ancestor ≠ "") :
    isWithin path ancestor = true ↔ path = ancestor ∨ ∃ rest, path = ancestor ++ "." ++ rest := by
  rw [isWithin_iff h]
  constructor
  · rintro ⟨rest, hpath, rfl | ⟨more, rfl⟩⟩
    · exact Or.inl (String.toList_injective (by simpa using hpath))
    · refine Or.inr ⟨String.ofList more, String.toList_injective ?_⟩
      simpa using hpath
  · rintro (rfl | ⟨rest, rfl⟩)
    · exact ⟨[], by simp, Or.inl rfl⟩
    · exact ⟨'.' :: rest.toList, by simp, Or.inr ⟨_, rfl⟩⟩

/-- A path is within another if and only if its segments begin with those of the other. -/
theorem isWithin_iff_segments_prefix :
    isWithin path ancestor = true ↔ segments ancestor <+: segments path := by
  by_cases h : ancestor = ""
  · subst h
    simp [segments]
  · rw [isWithin_iff_eq_or_append h]
    constructor
    · rintro (rfl | ⟨rest, rfl⟩)
      · exact List.prefix_rfl
      · rw [segments_append_dot h]
        exact List.prefix_append _ _
    · rintro ⟨back, hback⟩
      have hpath : path = ofSegments (segments ancestor ++ back) := by
        rw [hback, ofSegments_segments]
      have hfront : segments ancestor ≠ [] := mt segments_eq_nil_iff.1 h
      -- Segments put together again make the path, with a dot where some are left.
      by_cases hnil : back = []
      · left
        rw [hpath, hnil, List.append_nil, ofSegments_segments]
      · right
        refine ⟨ofSegments back, ?_⟩
        rw [hpath, ofSegments_append hfront hnil, ofSegments_segments]

end Path

/-! ## The test of matchers -/

namespace TokenMatcher

variable {path : List String}

/-- The segments that a matcher looks for are those of a path of their own. -/
theorem segments_ofSegments_prefixSegments (text : String) :
    Path.segments (Path.ofSegments (prefixSegments text)) = prefixSegments text := by
  refine Path.segments_ofSegments_of_dotless fun segment hmem => ?_
  rcases List.mem_filter.1 hmem with ⟨hpart, hne⟩
  exact ⟨by simpa using hne, Text.not_mem_of_mem_split hpart⟩

/-- Without empty segments the path of what a matcher looks for is its prefix. -/
theorem ofSegments_prefixSegments {text : String}
    (h : ∀ segment ∈ Path.segments text, segment ≠ "") :
    Path.ofSegments (prefixSegments text) = text := by
  by_cases hempty : text = ""
  · subst hempty
    rfl
  · have hall : prefixSegments text = Text.split '.' text := by
      refine List.filter_eq_self.2 fun segment hmem => ?_
      rw [Path.segments, if_neg hempty] at h
      simpa using h segment hmem
    rw [hall, Path.ofSegments_split]

/-- A matcher with a prefix only accepts what lies within the prefix without its empty segments. -/
theorem accepts_pathPrefix_iff (hpath : ∀ name ∈ path, Path.ValidName name) (text : String)
    (type : Option String) :
    accepts { pathPrefix := some text } path type = true ↔
      Path.isWithin (Path.ofSegments path) (Path.ofSegments (prefixSegments text)) = true := by
  rw [Path.isWithin_iff_segments_prefix, segments_ofSegments_prefixSegments,
    Path.segments_ofSegments hpath, ← List.isPrefixOf_iff_prefix]
  rfl

end TokenMatcher

namespace Path

/-- All tests for paths below another one compare segments: that of the texts for any two texts, and
that of a matcher whenever its prefix has no empty segments, the empty prefix having none at all. -/
theorem prefix_tests_agree :
    (∀ path ancestor : String,
      isWithin path ancestor = true ↔ segments ancestor <+: segments path) ∧
      ∀ (path : List String) (text : String) (type : Option String),
        (∀ name ∈ path, ValidName name) → (∀ segment ∈ segments text, segment ≠ "") →
          (TokenMatcher.accepts { pathPrefix := some text } path type = true ↔
            isWithin (ofSegments path) text = true) := by
  refine ⟨fun path ancestor => isWithin_iff_segments_prefix, ?_⟩
  intro path text type hpath htext
  rw [TokenMatcher.accepts_pathPrefix_iff hpath, TokenMatcher.ofSegments_prefixSegments htext]

/-- A name that begins like the prefix, in letters of several bytes. -/
theorem prefix_tests_agree_siblings :
    (∀ name ∈ ["größe", "maß"], ValidName name) ∧
      (∀ segment ∈ segments "größe.m", segment ≠ "") ∧
      (TokenMatcher.accepts { pathPrefix := some "größe.m" } ["größe", "maß"] none = true ↔
        isWithin (ofSegments ["größe", "maß"]) "größe.m" = true) ∧
      isWithin "größe.maß" "größe.m" = false ∧ isWithin "größe.maß" "größe" = true := by
  have hpath : ∀ name ∈ ["größe", "maß"], ValidName name := by decide
  have htext : ∀ segment ∈ segments "größe.m", segment ≠ "" := by decide
  exact ⟨hpath, htext, prefix_tests_agree.2 _ _ none hpath htext, by decide, by decide⟩

end Path
end DesignTokens

import DesignTokens.Project.FileName
import DesignTokens.Proofs.Text
import Mathlib.Data.List.TakeWhile

/-!
# File names of configurations

Whatever the template, the name of the configuration can be told from the name of the file: it
stands between parts of the template that do not depend on it. Only where the name does not show at
all, which takes a project with a single configuration, all of them give the same file.

A template without a placeholder is cut into its folder, the stem of its last component and the
extension, and the name goes between the last two.
-/

namespace DesignTokens

namespace FileName

variable {template config other : List Char} {multiple : Bool}

theorem placeholder_ne_nil : placeholder ≠ [] := by
  decide

/-- The first place where a name is put in shows that name, since what follows cannot make up for a
difference in length. -/
theorem eq_of_replace_go_eq {n : Nat} (hlength : template.length ≤ n)
    (hplace : hasPlaceholder template = true)
    (h : Text.replace.go placeholder config n template =
      Text.replace.go placeholder other n template) : config = other := by
  induction n generalizing template with
  | zero =>
      have hnil : template = [] := List.eq_nil_of_length_eq_zero (Nat.le_zero.1 hlength)
      subst hnil
      cases hplace
  | succ n ih =>
      cases template with
      | nil =>
          cases hplace
      | cons c rest =>
          have hrest : rest.length ≤ n := Nat.le_of_succ_le_succ hlength
          simp only [Text.replace_go_succ placeholder_ne_nil] at h
          cases hfound : Text.dropPrefix? placeholder (c :: rest) with
          | none =>
              -- The placeholder is further on.
              have hhere := Text.dropPrefix?_eq_none_iff.1 hfound
              have hlater : hasPlaceholder rest = true := by
                simpa [hasPlaceholder, hhere] using hplace
              simp only [hfound, List.cons.injEq, true_and] at h
              exact ih hrest hlater h
          | some after =>
              simp only [hfound] at h
              -- The names stand at the same place; a longer one could only be made up for by a
              -- shorter rest.
              apply Text.eq_of_append_eq h
              · intro hle
                exact Text.length_replace_go_le placeholder_ne_nil hle n after
              · intro hge
                exact Text.length_replace_go_le placeholder_ne_nil hge n after

/-- Names are told apart by a template with a placeholder, and by every template of several
configs. -/
theorem forConfigChars_inj (h : hasPlaceholder template = true ∨ multiple = true) :
    forConfigChars template config multiple = forConfigChars template other multiple ↔
      config = other := by
  constructor
  · intro heq
    unfold forConfigChars at heq
    by_cases hplace : hasPlaceholder template = true
    · simp only [hplace, if_true] at heq
      exact eq_of_replace_go_eq (Nat.le_refl _) hplace heq
    · -- The name stands between the same two parts of the template.
      have hmultiple : multiple = true := h.resolve_left hplace
      simp only [hplace, hmultiple, if_true] at heq
      simpa using heq
  · rintro rfl
    rfl

/-- Different configurations of a project have different files. -/
theorem forConfig_inj {template config other : String}
    (h : hasPlaceholder template.toList = true ∨ multiple = true) :
    forConfig template config multiple = forConfig template other multiple ↔ config = other := by
  unfold forConfig
  rw [String.ofList_inj, forConfigChars_inj h, String.toList_inj]

/-! ## Templates without a placeholder -/

theorem hasPlaceholder_iff : hasPlaceholder template = true ↔ placeholder <:+: template := by
  induction template with
  | nil =>
      simp [hasPlaceholder, placeholder_ne_nil]
  | cons c rest ih =>
      rw [hasPlaceholder, Bool.or_eq_true, List.isPrefixOf_iff_prefix, ih, List.infix_cons_iff]

/-- A template is its folder and its last component. -/
theorem directory_append_lastComponent (template : List Char) :
    directory template ++ lastComponent template = template := by
  rw [directory, lastComponent, ← List.reverse_append, List.takeWhile_append_dropWhile,
    List.reverse_reverse]

/-- A folder ends with the last slash. -/
theorem getLast?_directory (template : List Char) :
    directory template = [] ∨ (directory template).getLast? = some '/' := by
  rw [directory, List.getLast?_reverse, List.reverse_eq_nil_iff]
  cases hback : template.reverse.dropWhile (· ≠ '/') with
  | nil =>
      exact Or.inl rfl
  | cons c rest =>
      have hslash := List.head?_dropWhile_not (· ≠ '/') template.reverse
      simp only [hback, List.head?_cons] at hslash
      exact Or.inr (by simpa using hslash)

theorem slash_not_mem_lastComponent (template : List Char) : '/' ∉ lastComponent template := by
  intro hmem
  have hkept := List.mem_takeWhile_imp (List.mem_reverse.1 hmem)
  simp at hkept

theorem stem_append_extension (component : List Char) :
    stem component ++ extension component = component := by
  cases component with
  | nil =>
      rfl
  | cons c rest =>
      simp [stem, extension]

theorem dot_not_mem_tail_stem (component : List Char) : '.' ∉ (stem component).tail := by
  cases component with
  | nil =>
      simp [stem]
  | cons c rest =>
      intro hmem
      have hkept := List.mem_takeWhile_imp hmem
      simp at hkept

/-- An extension starts with a dot, which is not the first character of the component. -/
theorem head?_extension (component : List Char) :
    extension component = [] ∨
      stem component ≠ [] ∧ (extension component).head? = some '.' := by
  cases component with
  | nil =>
      exact Or.inl rfl
  | cons c rest =>
      rw [extension]
      cases hback : rest.dropWhile (· ≠ '.') with
      | nil =>
          exact Or.inl rfl
      | cons d more =>
          have hdot := List.head?_dropWhile_not (· ≠ '.') rest
          simp only [hback, List.head?_cons] at hdot
          exact Or.inr ⟨by simp [stem], by simpa using hdot⟩

/-- A template as three texts: what stands up to and including the last slash, the last component up
to its first dot that does not start it, and the rest. -/
structure Cut (template folder stem extension : String) : Prop where
  whole : template = folder ++ stem ++ extension
  folder_end : folder = "" ∨ folder.toList.getLast? = some '/'
  /-- The last slash is in the folder. -/
  component : '/' ∉ (stem ++ extension).toList
  stem_dots : '.' ∉ stem.toList.tail
  extension_start : extension = "" ∨ stem ≠ "" ∧ extension.toList.head? = some '.'

/-- Every template is cut at the last dot of its last component. -/
theorem cut_template (template : String) :
    Cut template (.ofList (directory template.toList))
      (.ofList (stem (lastComponent template.toList)))
      (.ofList (extension (lastComponent template.toList))) where
  whole := by
    rw [← String.toList_inj]
    simp [stem_append_extension, directory_append_lastComponent]
  folder_end := by
    simpa [← String.toList_inj] using getLast?_directory template.toList
  component := by
    simpa [stem_append_extension] using slash_not_mem_lastComponent template.toList
  stem_dots := by
    simpa using dot_not_mem_tail_stem (lastComponent template.toList)
  extension_start := by
    simpa [← String.toList_inj] using head?_extension (lastComponent template.toList)

/-- Several configurations have different files whatever the template. Without a placeholder, the
name of the configuration and a dash are put into the template behind its folder, before the first
dot of the last component that does not start it. -/
theorem tellsApart_forConfig (template : String) :
    (∀ config other,
      forConfig template config true = forConfig template other true ↔ config = other) ∧
    (¬ placeholder <:+: template.toList →
      ∃ folder stem extension, Cut template folder stem extension ∧
        ∀ config, forConfig template config true =
          folder ++ stem ++ ("-" ++ config) ++ extension) := by
  refine ⟨fun config other => forConfig_inj (Or.inr rfl), ?_⟩
  intro hplace
  refine ⟨_, _, _, cut_template template, ?_⟩
  intro config
  have hnone : hasPlaceholder template.toList = false := by
    rwa [← Bool.not_eq_true, hasPlaceholder_iff]
  rw [← String.toList_inj]
  simp [forConfig, forConfigChars, hnone]

theorem tellsApart_forConfig_declarations :
    ¬ placeholder <:+: "web/.d/tokens.d.ts".toList ∧
      (∃ folder stem extension, Cut "web/.d/tokens.d.ts" folder stem extension ∧
        ∀ config, forConfig "web/.d/tokens.d.ts" config true =
          folder ++ stem ++ ("-" ++ config) ++ extension) ∧
      forConfig "web/.d/tokens.d.ts" "dark" true = "web/.d/tokens-dark.d.ts" := by
  have hplace : ¬ placeholder <:+: "web/.d/tokens.d.ts".toList := by
    rw [← hasPlaceholder_iff]
    decide
  exact ⟨hplace, (tellsApart_forConfig "web/.d/tokens.d.ts").2 hplace, by decide +kernel⟩

end FileName
end DesignTokens

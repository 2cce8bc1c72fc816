import DesignTokens.Proofs.File.UnixPath
import DesignTokens.Proofs.Project.Outputs

/-!
# Paths of files in a bundle

The path of a file is its platform, a slash and its name, or it is refused. Exactly those paths are
refused that start at the root or with a part `.`, that go up, or that lack one half. What is
accepted stays below every directory that it is taken from, at each of its parts.
-/

namespace DesignTokens
namespace Artifact

variable {artifact : Artifact} {path : String}

structure IsSafe (artifact : Artifact) : Prop where
  platform : artifact.platform ≠ ""
  fileName : artifact.fileName ≠ ""
  relative : artifact.bundlePath.toList.head? ≠ some '/'
  /-- Only a part `.` at the very start counts; others lead nowhere. -/
  plain_start : (UnixPath.parts artifact.bundlePath).head? ≠ some "."
  not_up : ".." ∉ UnixPath.parts artifact.bundlePath

/-- When an artifact is safe: its path is contained, and neither the platform nor the file name is
empty. -/
theorem isSafe_iff :
    artifact.IsSafe ↔ UnixPath.isContained artifact.bundlePath = true ∧ artifact.platform ≠ "" ∧
      artifact.fileName ≠ "" := by
  rw [UnixPath.isContained_iff]
  constructor
  · rintro ⟨hplatform, hname, hrelative, hstart, hup⟩
    exact ⟨⟨hrelative, hstart, hup⟩, hplatform, hname⟩
  · rintro ⟨⟨hrelative, hstart, hup⟩, hplatform, hname⟩
    exact ⟨hplatform, hname, hrelative, hstart, hup⟩

instance (artifact : Artifact) : Decidable artifact.IsSafe :=
  decidable_of_iff _ isSafe_iff.symm

theorem path_of_isSafe (h : artifact.IsSafe) : artifact.path = .ok artifact.bundlePath :=
  if_pos (isSafe_iff.1 h)

theorem path_of_not_isSafe (h : ¬ artifact.IsSafe) :
    artifact.path = .error (.unsafePath artifact.bundlePath) :=
  if_neg (mt isSafe_iff.2 h)

theorem path_eq_ok_iff :
    artifact.path = .ok path ↔ artifact.IsSafe ∧ artifact.bundlePath = path := by
  by_cases h : artifact.IsSafe
  · simp [path_of_isSafe h, h]
  · simp [path_of_not_isSafe h, h]

/-- The first part of an accepted path is a name. -/
theorem IsSafe.exists_parts (h : artifact.IsSafe) :
    ∃ first rest, UnixPath.parts artifact.bundlePath = first :: rest ∧
      (UnixPath.component? first).isSome = true := by
  have hparts : UnixPath.parts artifact.bundlePath =
      UnixPath.parts artifact.platform ++ UnixPath.parts artifact.fileName :=
    UnixPath.parts_append_slash artifact.platform artifact.fileName
  rcases hplatform : UnixPath.parts artifact.platform with _ | ⟨first, more⟩
  · exact absurd hplatform (UnixPath.parts_ne_nil _)
  · rcases hname : UnixPath.parts artifact.fileName with _ | ⟨second, last⟩
    · exact absurd hname (UnixPath.parts_ne_nil _)
    · have hall : UnixPath.parts artifact.bundlePath = first :: (more ++ second :: last) := by
        rw [hparts, hplatform, hname, List.cons_append]
      have hempty : first ≠ "" := by
        rintro rfl
        -- The slash between the halves leaves a second part in any case.
        rcases hrest : more ++ second :: last with _ | ⟨next, rest⟩
        · simp at hrest
        · exact h.relative (UnixPath.head?_toList_eq_slash_iff.2 ⟨next, rest, by rw [hall, hrest]⟩)
      have hhere : first ≠ "." := by
        rintro rfl
        exact h.plain_start (by rw [hall]; rfl)
      refine ⟨first, more ++ second :: last, hall, ?_⟩
      unfold UnixPath.component?
      split
      · simp_all
      · split <;> rfl

/-- An accepted path leads down from its directory to one name at least. -/
theorem IsSafe.target_eq (h : artifact.IsSafe) (directory : Location) :
    ∃ name below, UnixPath.target directory (UnixPath.parts artifact.bundlePath) =
      directory ++ name :: below := by
  rcases h.exists_parts with ⟨first, rest, hparts, hfirst⟩
  rw [UnixPath.target_eq h.not_up, hparts]
  refine ⟨first, rest.filter fun part => (UnixPath.component? part).isSome, ?_⟩
  simp [hfirst]

/-- The path of a file is the plain one or refused, and it is accepted exactly when it is safe. An
accepted path visits no place outside the directory that it is taken from and ends strictly below
it. -/
theorem contained_path (artifact : Artifact) :
    (artifact.path = .ok (artifact.platform ++ "/" ++ artifact.fileName) ∨
      artifact.path = .error (.unsafePath (artifact.platform ++ "/" ++ artifact.fileName))) ∧
    ((∃ path, artifact.path = .ok path) ↔ artifact.IsSafe) ∧
    ∀ path, artifact.path = .ok path → ∀ directory : Location,
      (∀ place ∈ UnixPath.visited directory (UnixPath.parts path), directory <+: place) ∧
        ∃ name below,
          UnixPath.target directory (UnixPath.parts path) = directory ++ name :: below := by
  refine ⟨?_, ?_, ?_⟩
  · by_cases h : artifact.IsSafe
    · exact Or.inl (path_of_isSafe h)
    · exact Or.inr (path_of_not_isSafe h)
  · simp [path_eq_ok_iff]
  · intro path hpath directory
    rcases path_eq_ok_iff.1 hpath with ⟨hsafe, rfl⟩
    exact ⟨fun place hplace => UnixPath.prefix_of_mem_visited hsafe.not_up hplace,
      hsafe.target_eq directory⟩

/-- Empty parts and parts `.` in both halves, and names that begin with dots. -/
def dottedArtifact : Artifact where
  platform := "web//."
  config := "default"
  fileName := "./..css//.tokens.css/"
  format := .cssVariables
  content := ""

theorem contained_path_dotted :
    dottedArtifact.path = .ok "web//././..css//.tokens.css/" ∧ dottedArtifact.IsSafe ∧
      (∀ place ∈ UnixPath.visited ["out"] (UnixPath.parts "web//././..css//.tokens.css/"),
        ["out"] <+: place) ∧
      UnixPath.target ["out"] (UnixPath.parts "web//././..css//.tokens.css/") =
        ["out", "web", "..css", ".tokens.css"] := by
  have hpath : dottedArtifact.path = .ok "web//././..css//.tokens.css/" := by decide +kernel
  have hcontained := contained_path dottedArtifact
  exact ⟨hpath, hcontained.2.1.1 ⟨_, hpath⟩, (hcontained.2.2 _ hpath ["out"]).1,
    by decide +kernel⟩

end Artifact
end DesignTokens

import DesignTokens.Output.JsonFile
import DesignTokens.Proofs.Token.Listing
import DesignTokens.Proofs.Transform.LastApplied

/-!
# Nested values

An object that values are put into one after another, each at a path of its own. A value gives way
to an object when a later path leads through it, and a later value is put among the fields of an
earlier one that is an object. Neither happens to the tokens of a document: no path of one leads
through another, and neither resolving nor transforming a token changes its path. So every value is
found at its path, and around the values there are just the objects on the way to them.
-/

namespace DesignTokens

/-! ## Fields of fields -/

namespace Json

/-- The fields of an object. What is no object has none. -/
def fieldsOf : Option Json → Entries Json
  | some (.object fields) => fields
  | _ => []

def follow : Option Json → List String → Option Json
  | value, [] => value
  | value, name :: rest => follow (Entries.get? (fieldsOf value) name) rest

@[simp] theorem fieldsOf_object (fields : Entries Json) :
    fieldsOf (some (.object fields)) = fields := rfl

@[simp] theorem follow_none (path : List String) : follow none path = none := by
  induction path with
  | nil =>
      rfl
  | cons name rest ih =>
      exact ih

/-- Following two lists of names is following the one and then the other. -/
theorem follow_append (value : Option Json) (front rest : List String) :
    follow value (front ++ rest) = follow (follow value front) rest := by
  induction front generalizing value with
  | nil =>
      rfl
  | cons name back ih =>
      exact ih _

/-- What is no object has the fields of an empty one, below it as well. -/
theorem fieldsOf_follow_object (value : Option Json) (path : List String) :
    fieldsOf (follow (some (.object (fieldsOf value))) path) = fieldsOf (follow value path) := by
  cases path with
  | nil =>
      rfl
  | cons name rest =>
      rfl

end Json

namespace Output

variable {value : Json} {fields : Entries Json} {front path place rest : List String}
  {name : String}

/-! ## One value put into an object -/

/-- An insertion below a name puts an object there, with what stood there before. -/
theorem insertAt_cons (hrest : rest ≠ []) (value : Json) (name : String) (fields : Entries Json) :
    insertAt value (name :: rest) fields =
      Entries.put fields name
        (.object (insertAt value rest (Json.fieldsOf (Entries.get? fields name)))) := by
  rcases List.exists_cons_of_ne_nil hrest with ⟨second, more, rfl⟩
  rfl

/-- A path adds the name that it starts with, unless there is a field of this name. -/
theorem keys_insertAt_cons (value : Json) (name : String) (rest : List String)
    (fields : Entries Json) :
    Entries.keys (insertAt value (name :: rest) fields) =
      if name ∈ Entries.keys fields then Entries.keys fields
      else Entries.keys fields ++ [name] := by
  simp only [Entries.mem_keys_iff]
  cases rest with
  | nil =>
      exact Entries.keys_put fields name value
  | cons second more =>
      exact Entries.keys_put fields name _

/-- On the way to its end, a value is put into the objects that were there. -/
theorem follow_insertAt_append (hrest : rest ≠ []) (value : Json) (front : List String)
    (fields : Entries Json) :
    Json.follow (some (.object (insertAt value (front ++ rest) fields))) front =
      some (.object (insertAt value rest
        (Json.fieldsOf (Json.follow (some (.object fields)) front)))) := by
  induction front generalizing fields with
  | nil =>
      rfl
  | cons name back ih =>
      have hback : back ++ rest ≠ [] := by simp [hrest]
      rw [List.cons_append, insertAt_cons hback]
      simp only [Json.follow, Json.fieldsOf_object, Entries.get?_put, if_true]
      rw [ih, Json.fieldsOf_follow_object]

/-- What is inserted at a path is found there. -/
theorem follow_insertAt (hpath : path ≠ []) (value : Json) (fields : Entries Json) :
    Json.follow (some (.object (insertAt value path fields))) path = some value := by
  rcases List.eq_nil_or_concat path with rfl | ⟨front, name, rfl⟩
  · exact absurd rfl hpath
  · -- The last object on the way has the value under the last name.
    have hway := follow_insertAt_append (List.cons_ne_nil name []) value front fields
    rw [List.concat_eq_append, Json.follow_append, hway]
    simp [Json.follow, insertAt]

/-- Beside the way of a value nothing is changed. -/
theorem follow_insertAt_beside (hplace : ¬ place <+: path) (hpath : ¬ path <+: place)
    (value : Json) (fields : Entries Json) :
    Json.follow (some (.object (insertAt value path fields))) place =
      Json.follow (some (.object fields)) place := by
  induction path generalizing fields place with
  | nil =>
      exact absurd (List.nil_prefix ..) hpath
  | cons first rest ih =>
      cases place with
      | nil =>
          exact absurd (List.nil_prefix ..) hplace
      | cons name more =>
          by_cases hname : name = first
          · -- The place is on the way for one more name.
            subst hname
            have hmore : ¬ more <+: rest := by simpa using hplace
            have hrest : ¬ rest <+: more := by simpa using hpath
            have hne : rest ≠ [] := by
              rintro rfl
              exact hrest (List.nil_prefix ..)
            rcases List.exists_cons_of_ne_nil (l := more) (by
              rintro rfl
              exact hmore (List.nil_prefix ..)) with ⟨second, others, rfl⟩
            have hbelow := ih hmore hrest (Json.fieldsOf (Entries.get? fields name))
            rw [insertAt_cons hne]
            simpa [Json.follow] using hbelow
          · cases rest <;> simp [Json.follow, insertAt, Ne.symm hname]

/-! ## Names in the order of paths -/

/-- The name that a path has next after another one that it begins with. -/
def nameAfter? (front path : List String) : Option String :=
  if front <+: path then path[front.length]? else none

/-- The names that come next in some paths, each at the place where it comes first. -/
def namesAfter (front : List String) (paths : List (List String)) : List String :=
  (paths.filterMap (nameAfter? front)).eraseDups

theorem nameAfter?_append (front rest : List String) :
    nameAfter? front (front ++ rest) = rest.head? := by
  rw [nameAfter?, if_pos (List.prefix_append ..), List.getElem?_append_right (Nat.le_refl _),
    Nat.sub_self, List.head?_eq_getElem?]

theorem nameAfter?_eq_none (h : ¬ front <+: path) : nameAfter? front path = none :=
  if_neg h

theorem nameAfter?_eq_some_iff : nameAfter? front path = some name ↔ front ++ [name] <+: path := by
  by_cases h : front <+: path
  · rcases h with ⟨rest, rfl⟩
    rw [nameAfter?_append, List.prefix_append_right_inj]
    cases rest <;> simp [eq_comm]
  · rw [nameAfter?_eq_none h]
    refine iff_of_false nofun fun hlonger => h ?_
    exact (List.prefix_append front [name]).trans hlonger

/-- The names after a front are the next ones of the paths through it. -/
theorem mem_namesAfter_iff {paths : List (List String)} :
    name ∈ namesAfter front paths ↔ ∃ path ∈ paths, front ++ [name] <+: path := by
  simp [namesAfter, nameAfter?_eq_some_iff]

/-- A name that comes again stays where it came first. -/
theorem eraseDups_append_singleton (names : List String) (name : String) :
    (names ++ [name]).eraseDups =
      if name ∈ names.eraseDups then names.eraseDups else names.eraseDups ++ [name] := by
  rw [List.eraseDups_append]
  by_cases hmem : name ∈ names
  · simp [List.removeAll, hmem]
  · simp [List.removeAll, hmem, List.eraseDups_cons]

/-- A new path through the front adds its next name at the end, if that is new. -/
theorem namesAfter_append_of_some {paths : List (List String)}
    (h : nameAfter? front path = some name) :
    namesAfter front (paths ++ [path]) =
      if name ∈ namesAfter front paths then namesAfter front paths
      else namesAfter front paths ++ [name] := by
  simp only [namesAfter, List.filterMap_append, List.filterMap_cons_some h, List.filterMap_nil]
  exact eraseDups_append_singleton _ name

/-- A path elsewhere adds no name after the front. -/
theorem namesAfter_append_of_none {paths : List (List String)} (h : nameAfter? front path = none) :
    namesAfter front (paths ++ [path]) = namesAfter front paths := by
  simp [namesAfter, h]

/-- Where no path goes through, there are no names. -/
theorem namesAfter_eq_nil {paths : List (List String)} (h : ∀ path ∈ paths, ¬ front <+: path) :
    namesAfter front paths = [] := by
  have hnone : paths.filterMap (nameAfter? front) = [] := by
    rw [List.filterMap_eq_nil_iff]
    exact fun path hmem => nameAfter?_eq_none (h path hmem)
  rw [namesAfter, hnone]
  rfl

/-! ## Values put in one after another -/

/-- An object has the values of some tokens at their paths. Around the values there are just the
objects on the way to them, each with the names that the paths go on with there, in the order in
which they have them first. -/
structure Nests (tokens : List TransformedToken) (fields : Entries Json) : Prop where
  value : ∀ token ∈ tokens, Json.follow (some (.object fields)) token.path = some token.value
  /-- The whole object is there also when there are no tokens. -/
  group : ∀ front, (∀ token ∈ tokens, ¬ token.path <+: front) →
    (front = [] ∨ ∃ token ∈ tokens, front <+: token.path) →
      ∃ below, Json.follow (some (.object fields)) front = some (.object below) ∧
        Entries.keys below = namesAfter front (tokens.map (·.path))
  nothing : ∀ front, (∀ token ∈ tokens, ¬ token.path <+: front) →
    front ≠ [] → (∀ token ∈ tokens, ¬ front <+: token.path) →
      Json.follow (some (.object fields)) front = none

def Apart (first second : List String) : Prop :=
  ¬ first <+: second ∧ ¬ second <+: first

variable {tokens : List TransformedToken} {token : TransformedToken}

theorem nests_nil : Nests [] [] where
  value := by
    simp
  group := by
    rintro front - (rfl | ⟨token, hmem, -⟩)
    · exact ⟨[], rfl, rfl⟩
    · cases hmem
  nothing := by
    intro front _ hfront _
    rcases List.exists_cons_of_ne_nil hfront with ⟨name, rest, rfl⟩
    simp [Json.follow]

/-- What is on the way of a path is an object or missing, with the names of the other paths. -/
theorem Nests.keys_fieldsOf (h : Nests tokens fields)
    (hfront : ∀ token ∈ tokens, ¬ token.path <+: front) :
    Entries.keys (Json.fieldsOf (Json.follow (some (.object fields)) front)) =
      namesAfter front (tokens.map (·.path)) := by
  by_cases hthere : front = [] ∨ ∃ token ∈ tokens, front <+: token.path
  · rcases h.group front hfront hthere with ⟨below, hbelow, hkeys⟩
    rw [hbelow]
    exact hkeys
  · rcases not_or.1 hthere with ⟨hne, hnone⟩
    have hfree : ∀ token ∈ tokens, ¬ front <+: token.path :=
      fun token hmem hleading => hnone ⟨token, hmem, hleading⟩
    rw [h.nothing front hfront hne hfree, namesAfter_eq_nil (by simpa using hfree)]
    rfl

/-- A token apart from those before is put in beside them. -/
theorem Nests.insertAt (h : Nests tokens fields) (hpath : token.path ≠ [])
    (hapart : ∀ other ∈ tokens, Apart other.path token.path) :
    Nests (tokens ++ [token]) (insertAt token.value token.path fields) where
  value := by
    intro other hmem
    rcases List.mem_append.1 hmem with hold | hnew
    · rw [follow_insertAt_beside (hapart other hold).1 (hapart other hold).2]
      exact h.value other hold
    · rw [List.mem_singleton.1 hnew]
      exact follow_insertAt hpath token.value fields
  group := by
    intro front hfront hthere
    have hold : ∀ other ∈ tokens, ¬ other.path <+: front :=
      fun other hmem => hfront other (List.mem_append_left _ hmem)
    have hnew : ¬ token.path <+: front := hfront token (by simp)
    rw [List.map_append, List.map_singleton]
    by_cases hway : front <+: token.path
    · -- The object is on the way of the new token, which goes on with a name.
      rcases hway with ⟨rest, hrest⟩
      rcases rest with _ | ⟨name, more⟩
      · exact absurd ⟨[], by simpa using hrest.symm⟩ hnew
      · have hnext : nameAfter? front token.path = some name := by
          rw [← hrest, nameAfter?_append]
          rfl
        refine ⟨_, hrest ▸ follow_insertAt_append (List.cons_ne_nil name more) _ front fields, ?_⟩
        rw [keys_insertAt_cons, h.keys_fieldsOf hold, namesAfter_append_of_some hnext]
    · -- The new token is elsewhere, and the object is as it was.
      rw [follow_insertAt_beside hway hnew, namesAfter_append_of_none
        (nameAfter?_eq_none hway)]
      refine h.group front hold (hthere.imp_right ?_)
      rintro ⟨other, hmem, hleading⟩
      rcases List.mem_append.1 hmem with hother | hsame
      · exact ⟨other, hother, hleading⟩
      · rw [List.mem_singleton.1 hsame] at hleading
        exact absurd hleading hway
  nothing := by
    intro front hfront hne hfree
    rw [follow_insertAt_beside (hfree token (by simp)) (hfront token (by simp))]
    exact h.nothing front (fun other hmem => hfront other (List.mem_append_left _ hmem)) hne
      fun other hmem => hfree other (List.mem_append_left _ hmem)

/-- Tokens whose paths are apart are nested without loss. -/
theorem nests_nested (hpaths : ∀ token ∈ tokens, token.path ≠ [])
    (hapart : tokens.Pairwise fun first second => Apart first.path second.path) :
    Nests tokens (nested tokens) := by
  induction tokens using List.reverseRecOn with
  | nil =>
      exact nests_nil
  | append_singleton before token ih =>
      rcases List.pairwise_append.1 hapart with ⟨hbefore, -, hlast⟩
      have hstep : nested (before ++ [token]) =
          Output.insertAt token.value token.path (nested before) := by
        simp [nested]
      rw [hstep]
      refine (ih (fun other hmem => hpaths other (List.mem_append_left _ hmem)) hbefore).insertAt
        (hpaths token (by simp)) ?_
      exact fun other hmem => hlast other hmem token (List.mem_singleton_self token)

/-! ## The tokens of a document -/

/-- Transforming a token does not move it. -/
theorem path_transformToken (transforms : List Transform) (base : Float) (token : ResolvedToken) :
    (Transform.transformToken transforms base token).path = token.path := by
  rw [Transform.transformToken_eq_decided]
  rfl

/-- Resolving and transforming keep the paths. -/
theorem map_path_transformAll (transforms : List Transform) (base : Float) (flat : List FlatToken)
    (tree : Tree) (budget : Nat) :
    (Transform.transformAll transforms base (FlatToken.resolveAll flat tree budget)).map (·.path) =
      flat.map (·.path) := by
  simp [Transform.transformAll, FlatToken.resolveAll, FlatToken.resolve, path_transformToken,
    Function.comp_def]

/-- No path of a listing leads to another one or below it. -/
theorem pairwise_apart_of_isListing {tree : Tree} {flat : List FlatToken}
    (h : tree.IsListing flat) : (flat.map (·.path)).Pairwise Apart := by
  refine h.distinct.imp_of_mem ?_
  intro first second hfirst hsecond hne
  rcases List.mem_map.1 hfirst with ⟨token, htoken, rfl⟩
  rcases List.mem_map.1 hsecond with ⟨other, hother, rfl⟩
  exact ⟨fun hleading => hne (h.apart token htoken other hother hleading),
    fun hleading => hne (h.apart other hother token htoken hleading).symm⟩

/-- A token of a flat list has a path. -/
theorem path_ne_nil_of_mem_flatten {tree : Tree} (h : tree.EachGroup Node.ProperNames)
    {token : FlatToken} (hmem : token ∈ tree.flatten) : token.path ≠ [] := by
  rcases Node.reachedBy_of_mem_flattenEntries h.1 h.2 hmem tree.attributes with
    ⟨name, rest, hpath, -⟩
  rw [hpath]
  exact List.cons_ne_nil name rest

/-- The tokens of a document are nested without loss, whatever their values are: each value is found
at its path, and around the values there are just the names of the paths, those of one object in
document order. -/
theorem nests_of_document {document : Json} {tree : Tree} (h : Tree.ofJson document = .ok tree)
    (budget : Nat) (transforms : List Transform) (base : Float) :
    let tokens :=
      Transform.transformAll transforms base (FlatToken.resolveAll tree.flatten tree budget)
    (tokens.map (·.path)).Pairwise tree.Precedes ∧ Nests tokens (nested tokens) ∧
      ∀ front below name, (∀ token ∈ tokens, ¬ token.path <+: front) →
        Json.follow (some (.object (nested tokens))) front = some (.object below) →
          name ∈ Entries.keys below → ∃ token ∈ tokens, front ++ [name] <+: token.path := by
  intro tokens
  have hnames := Tree.properNames_ofJson h
  have hlisting := Tree.isListing_flatten_of_properNames hnames
  -- Resolving and transforming keep the paths and their order.
  have hpaths : tokens.map (·.path) = tree.flatten.map (·.path) :=
    map_path_transformAll transforms base tree.flatten tree budget
  have hne : ∀ token ∈ tokens, token.path ≠ [] := by
    intro token hmem
    have hpath : token.path ∈ tree.flatten.map (·.path) := hpaths ▸ List.mem_map_of_mem hmem
    rcases List.mem_map.1 hpath with ⟨listed, hlisted, heq⟩
    exact heq ▸ path_ne_nil_of_mem_flatten hnames hlisted
  -- The tree has either a token or a group at a path, so that no path begins another.
  have hapart : tokens.Pairwise fun first second => Apart first.path second.path := by
    rw [← List.pairwise_map, hpaths]
    exact pairwise_apart_of_isListing hlisting
  have hnests := nests_nested hne hapart
  refine ⟨hpaths ▸ hlisting.ordered, hnests, ?_⟩
  intro front below name hfront hbelow hname
  have hkeys := hnests.keys_fieldsOf hfront
  rw [hbelow, Json.fieldsOf_object] at hkeys
  rw [hkeys, mem_namesAfter_iff] at hname
  rcases hname with ⟨path, hmem, hleading⟩
  rcases List.mem_map.1 hmem with ⟨token, htoken, rfl⟩
  exact ⟨token, htoken, hleading⟩

/-- Values that are objects, with fields named like tokens, and an alias of one of them; the groups
hold tokens before and after other groups. -/
def compositeDocument : Json :=
  .object [("type", .object [
      ("body", .object [("$value", .object [("size", .string "1rem"), ("body", .null)])]),
      ("note", .object [("size", .object [("$value", .array [.bool true])])]),
      ("size", .object [("$value", .string "2rem")])]),
    ("empty", .object []),
    ("copy", .object [("$value", .string (Alias.ofPath "type.body"))])]

def compositeTree : Tree where
  children :=
    [("type", .group {}
        [("body", .token { value := .object [("size", .string "1rem"), ("body", .null)] }),
          ("note", .group {} [("size", .token { value := .array [.bool true] })]),
          ("size", .token { value := .string "2rem" })]),
      ("empty", .group {} []),
      ("copy", .token { value := .string (Alias.ofPath "type.body") })]

theorem nests_of_document_composite :
    Tree.ofJson compositeDocument = .ok compositeTree ∧
      Nests (Transform.transformAll [{ kind := .name .kebab }] 16
          (FlatToken.resolveAll compositeTree.flatten compositeTree 3))
        [("type", .object [
            ("body", .object [("size", .string "1rem"), ("body", .null)]),
            ("note", .object [("size", .array [.bool true])]),
            ("size", .string "2rem")]),
          ("copy", .object [("size", .string "1rem"), ("body", .null)])] := by
  have hdocument : Tree.ofJson compositeDocument = .ok compositeTree := by decide +kernel
  have hnested : nested (Transform.transformAll [{ kind := .name .kebab }] 16
      (FlatToken.resolveAll compositeTree.flatten compositeTree 3)) =
        [("type", .object [
            ("body", .object [("size", .string "1rem"), ("body", .null)]),
            ("note", .object [("size", .array [.bool true])]),
            ("size", .string "2rem")]),
          ("copy", .object [("size", .string "1rem"), ("body", .null)])] := by
    decide +kernel
  have hnests := (nests_of_document hdocument 3 [{ kind := .name .kebab }] 16).2.1
  rw [hnested] at hnests
  exact ⟨hdocument, hnests⟩

end Output
end DesignTokens

import DesignTokens.Proofs.Token.Path
import DesignTokens.Token.Document

/-!
# Names in trees

Demands on the names that the groups of a tree give to their entries. The entries of a group are
put one by one, so that no two have the same name, and a token document is only read when all of its
names are valid.
-/

namespace DesignTokens
namespace Node

/-! ## Every group of a tree -/

mutual

/-- The names of the entries of every group at and below a node meet a demand. -/
def EachGroup (demand : List String → Prop) : Node → Prop
  | .token _ => True
  | .group _ children => demand (Entries.keys children) ∧ EachEntry demand children

/-- The groups at and below the entries of a group meet a demand. -/
def EachEntry (demand : List String → Prop) : List (String × Node) → Prop
  | [] => True
  | (_, node) :: rest => EachGroup demand node ∧ EachEntry demand rest

end

variable {demand : List String → Prop}

@[simp] theorem eachGroup_token (token : Token) : EachGroup demand (.token token) := by
  simp [EachGroup]

@[simp] theorem eachGroup_group_iff {attributes : Attributes} {children : List (String × Node)} :
    EachGroup demand (.group attributes children) ↔
      demand (Entries.keys children) ∧ EachEntry demand children := by
  simp [EachGroup]

@[simp] theorem eachEntry_nil : EachEntry demand [] := by
  simp [EachEntry]

@[simp] theorem eachEntry_cons_iff {name : String} {node : Node} {rest : List (String × Node)} :
    EachEntry demand ((name, node) :: rest) ↔ EachGroup demand node ∧ EachEntry demand rest := by
  simp [EachEntry]

mutual

/-- A demand that can be decided for one group can be decided for all of them. -/
def decideEachGroup [DecidablePred demand] : (node : Node) → Decidable (EachGroup demand node)
  | .token t => .isTrue (eachGroup_token t)
  | .group _ children =>
      have := decideEachEntry children
      decidable_of_iff (demand (Entries.keys children) ∧ EachEntry demand children)
        eachGroup_group_iff.symm

def decideEachEntry [DecidablePred demand] :
    (entries : List (String × Node)) → Decidable (EachEntry demand entries)
  | [] => .isTrue eachEntry_nil
  | (_, node) :: rest =>
      have := decideEachGroup node
      have := decideEachEntry rest
      decidable_of_iff (EachGroup demand node ∧ EachEntry demand rest) eachEntry_cons_iff.symm

end

instance [DecidablePred demand] (entries : List (String × Node)) :
    Decidable (EachEntry demand entries) :=
  decideEachEntry entries

/-- A demand on entries is one on each of them. -/
theorem eachEntry_iff {entries : List (String × Node)} :
    EachEntry demand entries ↔ ∀ entry ∈ entries, EachGroup demand entry.2 := by
  induction entries with
  | nil =>
      simp
  | cons entry rest ih =>
      rw [List.forall_mem_cons, ← ih]
      exact eachEntry_cons_iff

/-- An entry whose names are as demanded keeps the others so. -/
theorem EachEntry.put {entries : Entries Node} {node : Node} (h : EachEntry demand entries)
    (hnode : EachGroup demand node) (name : String) :
    EachEntry demand (Entries.put entries name node) := by
  induction entries with
  | nil =>
      simpa [Entries.put] using hnode
  | cons entry rest ih =>
      rcases entry with ⟨first, old⟩
      rcases eachEntry_cons_iff.1 h with ⟨hold, hrest⟩
      by_cases heq : first = name
      · simpa [Entries.put, heq] using ⟨hnode, hrest⟩
      · simpa [Entries.put, heq] using ⟨hold, ih hrest⟩

theorem EachEntry.get? {entries : Entries Node} {node : Node} {name : String}
    (h : EachEntry demand entries) (hget : Entries.get? entries name = some node) :
    EachGroup demand node := by
  induction entries with
  | nil =>
      cases hget
  | cons entry rest ih =>
      rcases entry with ⟨first, old⟩
      rcases eachEntry_cons_iff.1 h with ⟨hold, hrest⟩
      by_cases heq : first = name
      · simp only [Entries.get?, heq, if_true, Option.some.injEq] at hget
        exact hget ▸ hold
      · simp only [Entries.get?, heq, if_false] at hget
        exact ih hrest hget

/-- Two demands that are met everywhere are met together everywhere. -/
theorem EachGroup.and {other : List String → Prop} : {node : Node} → EachGroup demand node →
    EachGroup other node → EachGroup (fun names => demand names ∧ other names) node
  | .token t, _, _ => eachGroup_token t
  | .group attributes children, h, h' => by
      rcases eachGroup_group_iff.1 h with ⟨hnames, hchildren⟩
      rcases eachGroup_group_iff.1 h' with ⟨hnames', hchildren'⟩
      refine eachGroup_group_iff.2 ⟨⟨hnames, hnames'⟩, eachEntry_iff.2 fun entry hmem => ?_⟩
      exact (eachEntry_iff.1 hchildren entry hmem).and (eachEntry_iff.1 hchildren' entry hmem)
termination_by node => node
decreasing_by
  have hsize := List.sizeOf_lt_of_mem hmem
  rcases entry with ⟨name, node⟩
  simp only [Prod.mk.sizeOf_spec, group.sizeOf_spec] at hsize ⊢
  omega

/-- Two demands are met together when each is. -/
theorem EachEntry.and {other : List String → Prop} {entries : List (String × Node)}
    (h : EachEntry demand entries) (h' : EachEntry other entries) :
    EachEntry (fun names => demand names ∧ other names) entries := by
  refine eachEntry_iff.2 fun entry hmem => ?_
  exact (eachEntry_iff.1 h entry hmem).and (eachEntry_iff.1 h' entry hmem)

/-! ## Valid and distinct names -/

def ValidNames (names : List String) : Prop :=
  ∀ name ∈ names, Path.ValidName name

instance : DecidablePred ValidNames := fun names =>
  inferInstanceAs (Decidable (∀ name ∈ names, Path.ValidName name))

/-- No group names two entries alike, and all names are valid. -/
def ProperNames (names : List String) : Prop :=
  names.Nodup ∧ ∀ name ∈ names, Path.ValidName name

instance : DecidablePred ProperNames := fun names =>
  inferInstanceAs (Decidable (names.Nodup ∧ ∀ name ∈ names, Path.ValidName name))

theorem properNames_nil : ProperNames [] :=
  ⟨List.nodup_nil, fun _ hmem => absurd hmem List.not_mem_nil⟩

/-- Names are proper when the first one is valid and new and the others are proper. -/
theorem properNames_cons_iff {name : String} {node : Node} {rest : Entries Node} :
    ProperNames (Entries.keys ((name, node) :: rest)) ↔
      (name ∉ Entries.keys rest ∧ Path.ValidName name) ∧ ProperNames (Entries.keys rest) := by
  have hkeys : Entries.keys ((name, node) :: rest) = name :: Entries.keys rest := rfl
  rw [hkeys, ProperNames, ProperNames, List.nodup_cons, List.forall_mem_cons]
  exact and_and_and_comm

/-- A put under a valid name keeps names proper. -/
theorem ProperNames.put {entries : Entries Node} (h : ProperNames (Entries.keys entries))
    {name : String} (hname : Path.ValidName name) (node : Node) :
    ProperNames (Entries.keys (Entries.put entries name node)) := by
  refine ⟨Entries.nodup_keys_put h.1 name node, ?_⟩
  intro other hmem
  rw [Entries.keys_put] at hmem
  split at hmem
  · exact h.2 other hmem
  · rcases List.mem_append.1 hmem with hold | hnew
    · exact h.2 other hold
    · rw [List.mem_singleton.1 hnew]
      exact hname

end Node

/-- The names of the entries of every group of the tree meet a demand. -/
def Tree.EachGroup (demand : List String → Prop) (tree : Tree) : Prop :=
  demand (Entries.keys tree.children) ∧ Node.EachEntry demand tree.children

instance {demand : List String → Prop} [DecidablePred demand] (tree : Tree) :
    Decidable (tree.EachGroup demand) :=
  inferInstanceAs
    (Decidable (demand (Entries.keys tree.children) ∧ Node.EachEntry demand tree.children))

/-! ## Reading documents -/

mutual

/-- A node that is read has proper names. -/
theorem Node.properNames_ofJson {path : String} {value : Json} {node : Node}
    (h : Node.ofJson path value = .ok node) : node.EachGroup Node.ProperNames := by
  cases value with
  | object fields =>
      -- An object is a token if it has a value, and a group otherwise.
      rw [Node.ofJson] at h
      split at h
      · cases htoken : Token.ofFields path fields with
        | ok token =>
            rw [htoken] at h
            cases h
            exact Node.eachGroup_token token
        | error e =>
            rw [htoken] at h
            cases h
      · cases htree : Tree.addFields path {} fields with
        | ok tree =>
            rw [htree] at h
            cases h
            have hempty : Tree.EachGroup Node.ProperNames {} :=
              ⟨Node.properNames_nil, Node.eachEntry_nil⟩
            exact Node.eachGroup_group_iff.2 (Tree.properNames_addFields hempty htree)
        | error e =>
            rw [htree] at h
            cases h
  | null =>
      cases h
      exact Node.eachGroup_token _
  | bool b =>
      cases h
      exact Node.eachGroup_token _
  | number n =>
      cases h
      exact Node.eachGroup_token _
  | string text =>
      cases h
      exact Node.eachGroup_token _
  | array items =>
      cases h
      exact Node.eachGroup_token _

/-- Fields that are added to a tree with proper names leave it with such. -/
theorem Tree.properNames_addFields {path : String} {tree after : Tree}
    {fields : List (String × Json)} (htree : tree.EachGroup Node.ProperNames)
    (h : Tree.addFields path tree fields = .ok after) : after.EachGroup Node.ProperNames := by
  cases fields with
  | nil =>
      rw [Tree.addFields] at h
      cases h
      exact htree
  | cons field rest =>
      rcases field with ⟨key, value⟩
      rw [Tree.addFields] at h
      -- A field is an attribute of the group or an entry with a checked name.
      split at h
      · split at h
        · rename_i attributes _
          have hsame : Tree.EachGroup Node.ProperNames { tree with attributes := attributes } :=
            htree
          exact Tree.properNames_addFields hsame h
        · cases h
      · split at h
        · rename_i hkey
          split at h
          · rename_i node hnode
            rcases htree with ⟨hnames, hentries⟩
            have hput : Tree.EachGroup Node.ProperNames
                { tree with children := Entries.put tree.children key node } :=
              ⟨hnames.put (Path.validateName_eq_ok_iff.1 hkey) node,
                hentries.put (Node.properNames_ofJson hnode) key⟩
            exact Tree.properNames_addFields hput h
          · cases h
        · cases h

end

/-- Every document that is read names the entries of its groups properly. -/
theorem Tree.properNames_ofJson {value : Json} {tree : Tree} (h : Tree.ofJson value = .ok tree) :
    tree.EachGroup Node.ProperNames := by
  cases value with
  | object fields =>
      have hempty : Tree.EachGroup Node.ProperNames {} :=
        ⟨Node.properNames_nil, Node.eachEntry_nil⟩
      exact Tree.properNames_addFields hempty h
  | null =>
      cases h
  | bool b =>
      cases h
  | number n =>
      cases h
  | string text =>
      cases h
  | array items =>
      cases h

end DesignTokens

import DesignTokens.Proofs.Sequence
import DesignTokens.Proofs.Store.Loading
import DesignTokens.Proofs.Store.Relocation

/-!
# Runs of edits

A store starts empty or with the tree of a document and then goes through any number of edits with
any arguments, accepted or refused. It stays well formed all along, with one exception: a token set
at a name with a dot before it is accepted and stored where no group leads to it.
-/

namespace DesignTokens
namespace Store

variable {store : Store}

inductive Operation where
  | ensureGroup (path : String)
  | setToken (path : String) (token : Token)
  | remove (path : String)
  | rename (path name : String)
  | move (path parent : String)
  | redirect (path source target : String)

/-- The store after an edit, whether it is accepted or not. -/
def Operation.after (store : Store) : Operation → Store
  | .ensureGroup path => (Store.ensureGroup path).stateAfter store
  | .setToken path token => (Store.setToken path token).stateAfter store
  | .remove path => (Store.remove path).stateAfter store
  | .rename path name => (Store.rename path name).stateAfter store
  | .move path parent => (Store.move path parent).stateAfter store
  | .redirect path source target => (redirectReference path source target).stateAfter store

/-- The operation as an edit whose answer is dropped. -/
def Operation.edit : Operation → Edit TokenError Store Unit
  | .ensureGroup path => Store.ensureGroup path
  | .setToken path token => Store.setToken path token
  | .remove path => (Store.remove path).void
  | .rename path name => (Store.rename path name).void
  | .move path parent => (Store.move path parent).void
  | .redirect path source target => (redirectReference path source target).void

theorem Operation.atomic_edit (operation : Operation) : Edit.Atomic operation.edit := by
  cases operation with
  | ensureGroup path => exact atomic_ensureGroup path
  | setToken path token => exact atomic_setToken path token
  | remove path => exact (atomic_remove path).void
  | rename path name => exact (atomic_rename path name).void
  | move path parent => exact (atomic_move path parent).void
  | redirect path source target => exact (atomic_redirectReference path source target).void

def run (store : Store) (operations : List Operation) : Store :=
  operations.foldl Operation.after store

/-- The edit sets a token at a valid name with a dot before it. -/
def Operation.IsDotted : Operation → Prop
  | .setToken path _ => ∃ name, Path.ValidName name ∧ path = "." ++ name
  | _ => False

/-- A store to start with: the empty one, or that of a token document. -/
def Initial (store : Store) : Prop :=
  store = empty ∨ ∃ value tree, Tree.ofJson value = .ok tree ∧ store = ofTree tree

/-- An initial store is well-formed. -/
theorem Initial.wellFormed (h : store.Initial) : store.WellFormed := by
  rcases h with rfl | ⟨value, tree, htree, rfl⟩
  · exact wellFormed_empty
  · exact wellFormed_ofTree (Tree.properNames_ofJson htree)

/-! ## One edit -/

/-- The root is the parent of a name with a dot before it, so that nothing on the way refuses the
token. -/
theorem WellFormed.run_setToken_dot (h : store.WellFormed) {name : String}
    (hname : Path.ValidName name) (token : Token) :
    (setToken ("." ++ name) token).run store = .ok () (store.putToken ("." ++ name) token) := by
  refine run_setToken_eq_ok.2 ⟨"", store, Path.parent?_dot hname, ?_, ?_, ?_, rfl⟩
  · rw [Path.last_dot hname]
    exact hname
  · by_cases hgroup : store.isGroup ("." ++ name) = true
    · exact absurd (h.valid (contains_of_isGroup hgroup)) (not_valid_dot name)
    · simpa using hgroup
  · exact run_ensureGroup_eq_ok.2 ⟨fun _ hmem => absurd hmem List.not_mem_nil, rfl, rfl⟩

/-- Setting a token breaks a store exactly for a path that is a dot and a valid name. -/
theorem WellFormed.setToken_stateAfter_iff (h : store.WellFormed) (path : String) (token : Token) :
    ((setToken path token).stateAfter store).WellFormed ↔
      ¬ ∃ name, Path.ValidName name ∧ path = "." ++ name := by
  constructor
  · rintro hafter ⟨name, hname, rfl⟩
    have hrun := h.run_setToken_dot hname token
    rw [Edit.stateAfter_of_ok hrun, h.setToken_iff hrun] at hafter
    exact not_valid_dot name hafter
  · intro hplain
    refine (atomic_setToken path token).holds_stateAfter h fun {_ after} hrun => ?_
    rw [h.setToken_iff hrun]
    rcases run_setToken_eq_ok.1 hrun with ⟨parent, grown, hparent, hname, -, hensure, -⟩
    rcases h.ensureGroup hensure with ⟨hgrown, hgroup, -⟩
    -- An accepted path is a child of its parent or the one exception.
    rcases Path.eq_child_or_dot hparent with hpath | ⟨-, hdot⟩
    · rw [hpath]
      exact (hgrown.valid (contains_of_isGroup hgroup)).child hname
    · exact absurd ⟨_, hname, hdot⟩ hplain

/-- One edit keeps a store well formed unless it sets a token at a name with a dot before it. -/
theorem WellFormed.after_iff (h : store.WellFormed) (operation : Operation) :
    (operation.after store).WellFormed ↔ ¬ operation.IsDotted := by
  cases operation with
  | ensureGroup path =>
      have hafter := (atomic_ensureGroup path).holds_stateAfter h fun hrun =>
        (h.ensureGroup hrun).1
      exact iff_of_true hafter not_false
  | setToken path token =>
      exact h.setToken_stateAfter_iff path token
  | remove path =>
      have hafter := (atomic_remove path).holds_stateAfter h h.remove
      exact iff_of_true hafter not_false
  | rename path name =>
      have hafter := (atomic_rename path name).holds_stateAfter h fun hrun =>
        h.of_relocated (h.rename hrun)
      exact iff_of_true hafter not_false
  | move path parent =>
      have hafter := (atomic_move path parent).holds_stateAfter h fun hrun =>
        h.of_relocated (h.move hrun)
      exact iff_of_true hafter not_false
  | redirect path source target =>
      have hafter := (atomic_redirectReference path source target).holds_stateAfter h
        fun {_ _} hrun => (run_redirectReference_eq_ok.1 hrun).2 ▸ h.redirect path source target
      exact iff_of_true hafter not_false

/-! ## All edits -/

/-- A run keeps a store well-formed throughout exactly when it sets no token at such a path. -/
theorem WellFormed.run_iff (h : store.WellFormed) (operations : List Operation) :
    (∀ before, before <+: operations → (run store before).WellFormed) ↔
      ∀ operation ∈ operations, ¬ operation.IsDotted := by
  -- The induction carries well-formedness from one stage to the next.
  induction operations generalizing store with
  | nil =>
      refine iff_of_true (fun before hbefore => ?_) fun _ hmem => absurd hmem List.not_mem_nil
      rw [List.prefix_nil.1 hbefore]
      exact h
  | cons operation rest ih =>
      rw [Sequence.forall_prefix_cons_iff, List.forall_mem_cons]
      constructor
      · rintro ⟨-, hrest⟩
        have hafter : (operation.after store).WellFormed := hrest [] (List.nil_prefix ..)
        exact ⟨(h.after_iff operation).1 hafter, (ih hafter).1 hrest⟩
      · rintro ⟨hplain, hrest⟩
        exact ⟨h, (ih ((h.after_iff operation).2 hplain)).2 hrest⟩

/-- From an initial store on, any edits in any order keep the store well formed all along, if and
only if none of them sets a token at a valid name with a dot before it. -/
theorem wellFormed_run_iff (h : store.Initial) (operations : List Operation) :
    (∀ before, before <+: operations → (run store before).WellFormed) ↔
      ∀ operation ∈ operations, ¬ operation.IsDotted :=
  h.wellFormed.run_iff operations

theorem wellFormed_run_loaded :
    Tree.ofJson (.object [("a", .object [("$value", .bool true)])]) =
        .ok { children := [("a", .token { value := .bool true })] } ∧
      ∀ before, before <+: [.setToken "b.c" {}, .move "a" "b", .rename "b" "d", .remove "d.c"] →
        (run (ofTree { children := [("a", .token { value := .bool true })] })
          before).WellFormed := by
  have hparse : Tree.ofJson (.object [("a", .object [("$value", .bool true)])]) =
      .ok { children := [("a", .token { value := .bool true })] } := by rfl
  refine ⟨hparse, (wellFormed_run_iff (Or.inr ⟨_, _, hparse, rfl⟩) _).2 ?_⟩
  simp only [List.forall_mem_cons, List.not_mem_nil, Operation.IsDotted, not_false_eq_true,
    false_imp_iff, implies_true, and_true]
  rintro ⟨name, -, hdot⟩
  have hhead := congrArg (fun text => text.toList.head?) hdot
  simp at hhead

/-- The empty store and one edit: `x` is listed under the root, but no node is stored there. -/
theorem not_wellFormed_run_dot : ¬ (run empty [.setToken ".x" {}]).WellFormed := by
  intro h
  refine (wellFormed_empty.after_iff (.setToken ".x" {})).1 h ⟨"x", ?_, rfl⟩
  decide

end Store
end DesignTokens

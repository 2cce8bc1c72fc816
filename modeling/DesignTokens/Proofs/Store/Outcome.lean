import DesignTokens.Proofs.Edit
import DesignTokens.Proofs.Store.WellFormed

/-!
# Accepted edits of stores

What each edit of a store has checked when it is accepted, and which store it then leaves. A refused
edit leaves the store as it was.
-/

namespace DesignTokens
namespace Store

variable {store after : Store} {path parent name : String}

/-! ## Accepted runs -/

/-- An accepted `ensureGroup` found valid names and no token on the way, and has made the groups. -/
theorem run_ensureGroup_eq_ok {u : Unit} :
    (ensureGroup path).run store = .ok u after ↔
      (∀ name ∈ Path.segments path, Path.ValidName name) ∧
        store.tokenOnWay? "" (Path.segments path) = none ∧
        after = store.createGroups "" (Path.segments path) := by
  simp only [ensureGroup, Edit.run_bind_eq_ok, Edit.run_check_eq_ok, Edit.run_get_eq_ok]
  constructor
  · rintro ⟨_, _, ⟨hnames, rfl⟩, _, _, ⟨rfl, rfl⟩, hrest⟩
    cases htoken : store.tokenOnWay? "" (Path.segments path) with
    | some here =>
        rw [htoken] at hrest
        exact (Edit.run_throw_eq_ok.1 hrest).elim
    | none =>
        rw [htoken] at hrest
        exact ⟨Path.validateNames_eq_ok_iff.1 hnames, rfl, (Edit.run_set_eq_ok.1 hrest).symm⟩
  · rintro ⟨hnames, htoken, rfl⟩
    refine ⟨(), store, ⟨Path.validateNames_eq_ok_iff.2 hnames, rfl⟩, store, store, ⟨rfl, rfl⟩, ?_⟩
    rw [htoken]
    rfl

/-- An accepted `setToken` found a valid name, no group at the path and a group above it. -/
theorem run_setToken_eq_ok {token : Token} {u : Unit} :
    (setToken path token).run store = .ok u after ↔
      ∃ parent grown, Path.parent? path = some parent ∧ Path.ValidName (Path.last path) ∧
        store.isGroup path = false ∧ (ensureGroup parent).run store = .ok () grown ∧
        after = grown.putToken path token := by
  unfold setToken
  cases hparent : Path.parent? path with
  | none =>
      simp
  | some parent =>
      simp only [Edit.run_bind_eq_ok, Edit.run_check_eq_ok, Edit.run_get_eq_ok,
        Edit.run_guard_eq_ok, Edit.run_modify_eq_ok]
      constructor
      · rintro ⟨_, _, ⟨hname, rfl⟩, _, _, ⟨rfl, rfl⟩, hgroup, _, grown, hrun, rfl⟩
        exact ⟨parent, grown, rfl, Path.validateName_eq_ok_iff.1 hname, by simpa using hgroup, hrun,
          rfl⟩
      · rintro ⟨_, grown, hsome, hname, hgroup, hrun, rfl⟩
        cases hsome
        exact ⟨(), store, ⟨Path.validateName_eq_ok_iff.2 hname, rfl⟩, store, store, ⟨rfl, rfl⟩,
          by simpa using hgroup, (), grown, hrun, rfl⟩

/-- An accepted `remove` found the node, and has dropped its subtree and its name. -/
theorem run_remove_eq_ok {node : StoredNode} :
    (remove path).run store = .ok node after ↔
      ∃ parent, Path.parent? path = some parent ∧ store.get? path = some node ∧
        after = ((store.subtree path).foldl drop store).unlink parent (Path.last path) := by
  unfold remove
  cases hparent : Path.parent? path with
  | none =>
      simp [Edit.run_throw_eq_ok]
  | some parent =>
      simp only [Edit.run_bind_eq_ok, Edit.run_get_eq_ok]
      constructor
      · rintro ⟨_, _, ⟨rfl, rfl⟩, hrest⟩
        cases hget : store.get? path with
        | none =>
            rw [hget] at hrest
            exact (Edit.run_throw_eq_ok.1 hrest).elim
        | some found =>
            rw [hget] at hrest
            simp only [Edit.run_bind_eq_ok, Edit.run_set_eq_ok, Edit.run_pure_eq_ok] at hrest
            rcases hrest with ⟨_, _, rfl, rfl, rfl⟩
            exact ⟨parent, rfl, rfl, rfl⟩
      · rintro ⟨_, hsome, hget, rfl⟩
        cases hsome
        refine ⟨store, store, ⟨rfl, rfl⟩, ?_⟩
        rw [hget]
        rfl

/-- An accepted `rename` found a valid name that is free; the same name again changes nothing. -/
theorem run_rename_eq_ok {newPath : String} :
    (rename path name).run store = .ok newPath after ↔
      ∃ parent, Path.parent? path = some parent ∧ Path.ValidName name ∧
        store.contains path = true ∧
        ((Path.last path = name ∧ newPath = path ∧ after = store) ∨
          (Path.last path ≠ name ∧ newPath = Path.child parent name ∧
            store.contains newPath = false ∧
            after = (store.rekey path newPath).relink parent (Path.last path) name)) := by
  unfold rename
  cases hparent : Path.parent? path with
  | none =>
      simp [Edit.run_throw_eq_ok]
  | some parent =>
      simp only [Edit.run_bind_eq_ok, Edit.run_check_eq_ok, Edit.run_get_eq_ok,
        Edit.run_guard_eq_ok, Option.some.injEq, exists_eq_left', Bool.not_eq_true',
        Bool.not_eq_false]
      constructor
      · rintro ⟨_, _, ⟨hname, rfl⟩, _, _, ⟨rfl, rfl⟩, hc, hrest⟩
        refine ⟨Path.validateName_eq_ok_iff.1 hname, hc, ?_⟩
        by_cases hlast : Path.last path = name
        · rw [if_pos hlast, Edit.run_pure_eq_ok] at hrest
          exact Or.inl ⟨hlast, hrest.1.symm, hrest.2.symm⟩
        · rw [if_neg hlast] at hrest
          simp only [Edit.run_bind_eq_ok, Edit.run_guard_eq_ok, Edit.run_set_eq_ok,
            Edit.run_pure_eq_ok, Bool.not_eq_true] at hrest
          rcases hrest with ⟨htarget, _, _, rfl, rfl, rfl⟩
          exact Or.inr ⟨hlast, rfl, htarget, rfl⟩
      · rintro ⟨hname, hc, hcase⟩
        refine ⟨(), store, ⟨Path.validateName_eq_ok_iff.2 hname, rfl⟩, store, store, ⟨rfl, rfl⟩, hc,
          ?_⟩
        rcases hcase with ⟨hlast, rfl, rfl⟩ | ⟨hlast, rfl, htarget, rfl⟩
        · rw [if_pos hlast]
          rfl
        · rw [if_neg hlast, if_neg (by simpa using htarget)]
          rfl

/-- An accepted `move` found a group outside the subtree with a free name; the same parent changes
nothing. -/
theorem run_move_eq_ok {newPath : String} :
    (move path parent).run store = .ok newPath after ↔
      ∃ oldParent, Path.parent? path = some oldParent ∧ store.contains path = true ∧
        store.isGroup parent = true ∧ Path.isWithin parent path = false ∧
        ((oldParent = parent ∧ newPath = path ∧ after = store) ∨
          (oldParent ≠ parent ∧ newPath = Path.child parent (Path.last path) ∧
            store.contains newPath = false ∧
            after = ((store.rekey path newPath).unlink oldParent (Path.last path)).link parent
              (Path.last path))) := by
  unfold move
  cases hparent : Path.parent? path with
  | none =>
      simp [Edit.run_throw_eq_ok]
  | some oldParent =>
      simp only [Edit.run_bind_eq_ok, Edit.run_get_eq_ok, Edit.run_guard_eq_ok, Option.some.injEq,
        exists_eq_left', Bool.not_eq_true', Bool.not_eq_false, Bool.not_eq_true]
      constructor
      · rintro ⟨_, _, ⟨rfl, rfl⟩, hc, -, hgroup, hwithin, hrest⟩
        refine ⟨hc, hgroup, hwithin, ?_⟩
        by_cases hsame : oldParent = parent
        · rw [if_pos hsame, Edit.run_pure_eq_ok] at hrest
          exact Or.inl ⟨hsame, hrest.1.symm, hrest.2.symm⟩
        · rw [if_neg hsame] at hrest
          simp only [Edit.run_bind_eq_ok, Edit.run_guard_eq_ok, Edit.run_set_eq_ok,
            Edit.run_pure_eq_ok, Bool.not_eq_true] at hrest
          rcases hrest with ⟨htarget, _, _, rfl, rfl, rfl⟩
          exact Or.inr ⟨hsame, rfl, htarget, rfl⟩
      · rintro ⟨hc, hgroup, hwithin, hcase⟩
        refine ⟨store, store, ⟨rfl, rfl⟩, hc, contains_of_isGroup hgroup, hgroup, hwithin, ?_⟩
        rcases hcase with ⟨hsame, rfl, rfl⟩ | ⟨hsame, rfl, htarget, rfl⟩
        · rw [if_pos hsame]
          rfl
        · rw [if_neg hsame, if_neg (by simpa using htarget)]
          rfl

theorem run_redirectReference_eq_ok {source target : String} {changed : Bool} :
    (redirectReference path source target).run store = .ok changed after ↔
      changed = (store.redirected? path source target).isSome ∧
        after = store.redirect path source target := by
  simp only [redirectReference, Edit.run_bind_eq_ok, Edit.run_get_eq_ok, Edit.run_set_eq_ok,
    Edit.run_pure_eq_ok]
  constructor
  · rintro ⟨_, _, ⟨rfl, rfl⟩, _, _, rfl, rfl, rfl⟩
    exact ⟨rfl, rfl⟩
  · rintro ⟨rfl, rfl⟩
    exact ⟨store, store, ⟨rfl, rfl⟩, (), _, rfl, rfl, rfl⟩

/-! ## Refusals -/

theorem atomic_ensureGroup (path : String) : Edit.Atomic (ensureGroup path) := by
  refine Edit.readOnly_check.atomic_bind fun _ => Edit.readOnly_get.atomic_bind fun store => ?_
  cases store.tokenOnWay? "" (Path.segments path) with
  | some here =>
      exact Edit.atomic_throw
  | none =>
      exact Edit.atomic_set

theorem atomic_setToken (path : String) (token : Token) : Edit.Atomic (setToken path token) := by
  unfold setToken
  cases Path.parent? path with
  | none =>
      exact Edit.atomic_throw
  | some parent =>
      refine Edit.readOnly_check.atomic_bind fun _ => Edit.readOnly_get.atomic_bind fun store => ?_
      refine Edit.atomic_throw_bind.ite ?_
      exact (atomic_ensureGroup parent).bind_total fun _ => Edit.total_modify

theorem atomic_remove (path : String) : Edit.Atomic (remove path) := by
  unfold remove
  cases Path.parent? path with
  | none =>
      exact Edit.atomic_throw
  | some parent =>
      refine Edit.readOnly_get.atomic_bind fun store => ?_
      cases store.get? path with
      | none =>
          exact Edit.atomic_throw
      | some node =>
          exact Edit.atomic_set.bind_total fun _ => Edit.total_pure

theorem atomic_rename (path name : String) : Edit.Atomic (rename path name) := by
  unfold rename
  cases Path.parent? path with
  | none =>
      exact Edit.atomic_throw
  | some parent =>
      refine Edit.readOnly_check.atomic_bind fun _ => Edit.readOnly_get.atomic_bind fun store => ?_
      refine Edit.atomic_throw_bind.ite (Edit.atomic_pure.ite (Edit.atomic_throw_bind.ite ?_))
      exact Edit.atomic_set.bind_total fun _ => Edit.total_pure

theorem atomic_move (path parent : String) : Edit.Atomic (move path parent) := by
  unfold move
  cases Path.parent? path with
  | none =>
      exact Edit.atomic_throw
  | some oldParent =>
      refine Edit.readOnly_get.atomic_bind fun store => ?_
      refine Edit.atomic_throw_bind.ite (Edit.atomic_throw_bind.ite (Edit.atomic_throw_bind.ite
        (Edit.atomic_throw_bind.ite (Edit.atomic_pure.ite (Edit.atomic_throw_bind.ite ?_)))))
      exact Edit.atomic_set.bind_total fun _ => Edit.total_pure

theorem atomic_redirectReference (path source target : String) :
    Edit.Atomic (redirectReference path source target) :=
  Edit.readOnly_get.atomic_bind fun _ =>
    Edit.atomic_set.bind_total fun _ => Edit.total_pure

end Store
end DesignTokens

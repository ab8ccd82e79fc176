import Mathlib.Logic.Function.Basic
import Mathlib.Tactic.Tauto
import ArmaraOS.Lib.Machine

/-!
The agent registry (`openfang-kernel/src/registry.rs`) and its two indexes.

A concurrent map is a function of its keys; a tag without an entry has no agents. Of an agent
entry the registry reads the id, the name and the tags, and of a manifest the name and the tags.
-/

namespace ArmaraOS.Kernel

open ArmaraOS.Lib Function

/-! ### The registry -/

/-- `AgentManifest`. -/
structure AgentManifest where
  name : String
  tags : List String

/-- `AgentEntry`. -/
structure AgentEntry where
  id : Nat
  name : String
  tags : List String
  manifest : AgentManifest

/-- `OpenFangError`: those of the registry. -/
inductive RegistryError where
  | agentAlreadyExists (name : String)
  | agentNotFound (id : Nat)
  | config (message : String)
deriving DecidableEq

/-- `AgentRegistry`. -/
structure AgentRegistry where
  agents : Nat → Option AgentEntry
  nameIndex : String → Option Nat
  tagIndex : String → List Nat

/-- What `update_name` meets on the disk: whether the directory of the old name is there, whether
the one of the new name is, and the error of the renaming, if it fails. -/
structure AgentDirectories where
  oldIsDir : Bool
  newExists : Bool
  renameError : Option String

namespace AgentRegistry

/-- `AgentRegistry::new`. -/
def new : AgentRegistry := ⟨fun _ => none, fun _ => none, fun _ => []⟩

/-- The tag index with an id pushed to each of some tags. -/
def pushTags (tagIndex : String → List Nat) (id : Nat) (tags : List String) :
    String → List Nat :=
  tags.foldl (fun index tag => update index tag (index tag ++ [id])) tagIndex

/-- The tag index with an id dropped from each of some tags. -/
def retainTags (tagIndex : String → List Nat) (id : Nat) (tags : List String) :
    String → List Nat :=
  tags.foldl (fun index tag => update index tag ((index tag).filter (· != id))) tagIndex

/-- `AgentRegistry::register`. -/
def register (r : AgentRegistry) (entry : AgentEntry) :
    AgentRegistry × Except RegistryError Unit :=
  if (r.nameIndex entry.name).isSome then (r, .error (.agentAlreadyExists entry.name))
  else
    ({ agents := update r.agents entry.id (some entry)
       nameIndex := update r.nameIndex entry.name (some entry.id)
       tagIndex := pushTags r.tagIndex entry.id entry.tags }, .ok ())

/-- `AgentRegistry::remove`. -/
def remove (r : AgentRegistry) (id : Nat) : AgentRegistry × Except RegistryError AgentEntry :=
  match r.agents id with
  | none => (r, .error (.agentNotFound id))
  | some entry =>
      ({ agents := update r.agents id none
         nameIndex := update r.nameIndex entry.name none
         tagIndex := retainTags r.tagIndex id entry.tags }, .ok entry)

/-- The renaming of the agent directory in `update_name`. -/
def renameDirectory (oldName newName : String) (disk : AgentDirectories) :
    Except RegistryError Unit :=
  if disk.oldIsDir then
    if disk.newExists then
      .error (.agentAlreadyExists s!"agents/{newName} already exists on disk")
    else
      match disk.renameError with
      | some e => .error (.config s!"rename agent directory {oldName} → {newName}: {e}")
      | none => .ok ()
  else .ok ()

/-- `AgentRegistry::update_name`. -/
def updateName (r : AgentRegistry) (id : Nat) (newName : String) (disk : AgentDirectories) :
    AgentRegistry × Except RegistryError Unit :=
  match r.nameIndex newName with
  | some existingId =>
      if existingId ≠ id then (r, .error (.agentAlreadyExists newName)) else (r, .ok ())
  | none =>
      match r.agents id with
      | none => (r, .error (.agentNotFound id))
      | some entry =>
          if entry.name = newName then (r, .ok ())
          else
            match renameDirectory entry.name newName disk with
            | .error e => (r, .error e)
            | .ok () =>
                ({ r with
                   agents := update r.agents id
                     (some { entry with
                       name := newName, manifest := { entry.manifest with name := newName } })
                   nameIndex := update (update r.nameIndex entry.name none) newName (some id) },
                  .ok ())

/-- `AgentRegistry::replace_manifest`. -/
def replaceManifest (r : AgentRegistry) (id : Nat) (manifest : AgentManifest) :
    AgentRegistry × Except RegistryError Unit :=
  match r.agents id with
  | none => (r, .error (.agentNotFound id))
  | some entry =>
      ({ r with
         agents := update r.agents id
           (some { entry with manifest := manifest, tags := manifest.tags })
         tagIndex := pushTags (retainTags r.tagIndex id entry.tags) id manifest.tags }, .ok ())

end AgentRegistry

/-! ### Runs -/

/-- One call of the registry. -/
inductive RegistryOp where
  | register (entry : AgentEntry)
  | remove (id : Nat)
  | updateName (id : Nat) (newName : String) (disk : AgentDirectories)
  | replaceManifest (id : Nat) (manifest : AgentManifest)

/-- The error of a call that fails. -/
def failure {α : Type} : Except RegistryError α → Option RegistryError
  | .error e => some e
  | .ok _ => none

/-- The registry after a call, and the error if the call fails. -/
def RegistryOp.apply (r : AgentRegistry) : RegistryOp → AgentRegistry × Option RegistryError
  | register entry => ((r.register entry).1, failure (r.register entry).2)
  | remove id => ((r.remove id).1, failure (r.remove id).2)
  | updateName id newName disk =>
      ((r.updateName id newName disk).1, failure (r.updateName id newName disk).2)
  | replaceManifest id manifest =>
      ((r.replaceManifest id manifest).1, failure (r.replaceManifest id manifest).2)

/-- The registry after a call. -/
def registryStep (r : AgentRegistry) (op : RegistryOp) : AgentRegistry := (op.apply r).1

/-- An agent is registered under an id that is not registered. -/
def FreshId (r : AgentRegistry) : RegistryOp → Prop
  | .register entry => r.agents entry.id = none
  | _ => True

/-- The indexes say exactly what the entries say. -/
structure Exact (r : AgentRegistry) : Prop where
  ids : ∀ id entry, r.agents id = some entry → entry.id = id
  names : ∀ name id, r.nameIndex name = some id ↔
    ∃ entry, r.agents id = some entry ∧ entry.name = name
  tags : ∀ tag id, id ∈ r.tagIndex tag ↔ ∃ entry, r.agents id = some entry ∧ tag ∈ entry.tags

/-! ### The tag index -/

theorem mem_pushTags {tagIndex : String → List Nat} {id id' : Nat} {tags : List String}
    {tag : String} : id' ∈ AgentRegistry.pushTags tagIndex id tags tag ↔
      id' ∈ tagIndex tag ∨ (id' = id ∧ tag ∈ tags) := by
  induction tags generalizing tagIndex with
  | nil => simp [AgentRegistry.pushTags]
  | cons t tags ih =>
      have hunfold : AgentRegistry.pushTags tagIndex id (t :: tags) =
          AgentRegistry.pushTags (update tagIndex t (tagIndex t ++ [id])) id tags := rfl
      rw [hunfold, ih]
      by_cases htag : tag = t
      · subst htag
        simp only [update_self, List.mem_append, List.mem_cons, true_or, and_true]
        tauto
      · simp [htag]

theorem mem_retainTags {tagIndex : String → List Nat} {id id' : Nat} {tags : List String}
    {tag : String} : id' ∈ AgentRegistry.retainTags tagIndex id tags tag ↔
      id' ∈ tagIndex tag ∧ ¬ (id' = id ∧ tag ∈ tags) := by
  induction tags generalizing tagIndex with
  | nil => simp [AgentRegistry.retainTags]
  | cons t tags ih =>
      have hunfold : AgentRegistry.retainTags tagIndex id (t :: tags) =
          AgentRegistry.retainTags (update tagIndex t ((tagIndex t).filter (· != id))) id tags :=
        rfl
      rw [hunfold, ih]
      by_cases htag : tag = t
      · subst htag
        simp only [update_self, List.mem_filter, bne_iff_ne, List.mem_cons, true_or, and_true]
        tauto
      · simp [htag]

/-! ### Entries behind an update -/

section Updated

variable {agents : Nat → Option AgentEntry} {id id' : Nat} {P : AgentEntry → Prop}

theorem exists_update_some {entry : AgentEntry} :
    (∃ e, update agents id (some entry) id' = some e ∧ P e) ↔
      (id' = id ∧ P entry) ∨ (id' ≠ id ∧ ∃ e, agents id' = some e ∧ P e) := by
  by_cases hself : id' = id
  · subst hself
    simp
  · simp [hself]

theorem exists_update_none :
    (∃ e, update agents id none id' = some e ∧ P e) ↔
      id' ≠ id ∧ ∃ e, agents id' = some e ∧ P e := by
  by_cases hself : id' = id
  · subst hself
    simp
  · simp [hself]

/-- An entry that is rewritten as far as `P` does not see it. -/
theorem exists_update_same {entry new : AgentEntry} (hid : agents id = some entry)
    (hsame : P new ↔ P entry) :
    (∃ e, update agents id (some new) id' = some e ∧ P e) ↔ ∃ e, agents id' = some e ∧ P e := by
  rw [exists_update_some, hsame]
  by_cases hself : id' = id
  · subst hself
    simp [hid]
  · simp [hself]

/-- The index entry that is written for the name of an entry. -/
theorem index_written {nameIndex : String → Option Nat} {entry : AgentEntry} {name : String}
    (hname : entry.name = name) (hothers : ¬ ∃ e, agents id' = some e ∧ e.name = name) :
    update nameIndex name (some id) name = some id' ↔
      ∃ e, update agents id (some entry) id' = some e ∧ e.name = name := by
  rw [exists_update_some, update_self]
  constructor
  · rintro ⟨rfl⟩
    exact .inl ⟨rfl, hname⟩
  · rintro (⟨rfl, -⟩ | ⟨-, hid⟩)
    · rfl
    · exact absurd hid hothers

end Updated

/-! ### One call -/

namespace Exact

variable {r : AgentRegistry}

theorem new : Exact AgentRegistry.new := by
  constructor <;> simp [AgentRegistry.new]

/-- No two agents have one name. -/
theorem name_unique (h : Exact r) {id id' : Nat} {entry entry' : AgentEntry}
    (hid : r.agents id = some entry) (hid' : r.agents id' = some entry')
    (hname : entry.name = entry'.name) : id = id' := by
  have hindex := (h.names entry.name id).mpr ⟨entry, hid, rfl⟩
  rw [(h.names entry.name id').mpr ⟨entry', hid', hname.symm⟩] at hindex
  exact (Option.some.inj hindex).symm

/-- A name without an index entry is nobody's. -/
theorem name_free (h : Exact r) {name : String} (hnone : r.nameIndex name = none) {id : Nat}
    {entry : AgentEntry} (hid : r.agents id = some entry) : entry.name ≠ name := by
  intro hname
  have hindex := (h.names name id).mpr ⟨entry, hid, hname⟩
  rw [hnone] at hindex
  cases hindex

/-- The entries keep their ids when one is written under its own. -/
theorem ids_update (h : Exact r) {id : Nat} {entry : AgentEntry} (hid : entry.id = id) :
    ∀ id' entry', update r.agents id (some entry) id' = some entry' → entry'.id = id' := by
  intro id' entry' hentry
  by_cases hself : id' = id
  · subst hself
    rw [update_self] at hentry
    cases hentry
    exact hid
  · rw [update_of_ne hself] at hentry
    exact h.ids id' entry' hentry

theorem register (h : Exact r) {entry : AgentEntry} (hfresh : r.agents entry.id = none) :
    Exact (r.register entry).1 := by
  unfold AgentRegistry.register
  split
  · exact h
  · rename_i hname
    have hfree : r.nameIndex entry.name = none := by simpa using hname
    have hnobody : ∀ P : AgentEntry → Prop, ¬ ∃ e, r.agents entry.id = some e ∧ P e := by
      intro P
      simp [hfresh]
    constructor
    · exact h.ids_update rfl
    · intro name id
      dsimp only
      by_cases hself : name = entry.name
      · subst hself
        apply index_written rfl
        rintro ⟨e, he, hsame⟩
        exact h.name_free hfree he hsame
      · rw [exists_update_some, update_of_ne hself, h.names]
        constructor
        · intro hid
          refine .inr ⟨?_, hid⟩
          rintro rfl
          exact hnobody _ hid
        · rintro (⟨-, hsame⟩ | ⟨-, hid⟩)
          · exact absurd hsame.symm hself
          · exact hid
    · intro tag id
      dsimp only
      rw [exists_update_some, mem_pushTags, h.tags]
      constructor
      · rintro (hid | hid)
        · refine .inr ⟨?_, hid⟩
          rintro rfl
          exact hnobody _ hid
        · exact .inl hid
      · rintro (hid | ⟨-, hid⟩)
        · exact .inr hid
        · exact .inl hid

theorem remove (h : Exact r) (id : Nat) : Exact (r.remove id).1 := by
  unfold AgentRegistry.remove
  split
  · exact h
  · rename_i entry hentry
    constructor
    · intro id' entry' hid'
      dsimp only at hid'
      by_cases hself : id' = id
      · subst hself
        simp at hid'
      · rw [update_of_ne hself] at hid'
        exact h.ids id' entry' hid'
    · intro name id'
      dsimp only
      rw [exists_update_none]
      by_cases hself : name = entry.name
      · subst hself
        rw [update_self]
        constructor
        · intro hid'
          cases hid'
        · rintro ⟨hother, e, he, hsame⟩
          exact absurd (h.name_unique he hentry hsame) hother
      · rw [update_of_ne hself, h.names]
        constructor
        · rintro ⟨e, he, hsame⟩
          refine ⟨?_, e, he, hsame⟩
          rintro rfl
          rw [hentry] at he
          cases he
          exact hself hsame.symm
        · rintro ⟨-, hid'⟩
          exact hid'
    · intro tag id'
      dsimp only
      rw [exists_update_none, mem_retainTags, h.tags]
      constructor
      · rintro ⟨⟨e, he, htag⟩, hnot⟩
        refine ⟨?_, e, he, htag⟩
        rintro rfl
        rw [hentry] at he
        cases he
        exact hnot ⟨rfl, htag⟩
      · rintro ⟨hother, hid'⟩
        exact ⟨hid', fun hself => hother hself.1⟩

theorem updateName (h : Exact r) (id : Nat) (newName : String) (disk : AgentDirectories) :
    Exact (r.updateName id newName disk).1 := by
  unfold AgentRegistry.updateName
  split
  · split
    · exact h
    · exact h
  · rename_i hfree
    split
    · exact h
    · rename_i entry hentry
      split
      · exact h
      · rename_i hchanged
        split
        · exact h
        · constructor
          · exact h.ids_update (h.ids id entry hentry)
          · intro name id'
            dsimp only
            by_cases hnew : name = newName
            · subst hnew
              apply index_written
              · rfl
              · rintro ⟨e, he, hsame⟩
                exact h.name_free hfree he hsame
            · rw [exists_update_some, update_of_ne hnew]
              by_cases hold : name = entry.name
              · subst hold
                rw [update_self]
                constructor
                · intro hid'
                  cases hid'
                · rintro (⟨-, hsame⟩ | ⟨hother, e, he, hsame⟩)
                  · exact absurd hsame.symm hnew
                  · exact absurd (h.name_unique he hentry hsame) hother
              · rw [update_of_ne hold, h.names]
                constructor
                · rintro ⟨e, he, hsame⟩
                  refine .inr ⟨?_, e, he, hsame⟩
                  rintro rfl
                  rw [hentry] at he
                  cases he
                  exact hold hsame.symm
                · rintro (⟨-, hsame⟩ | ⟨-, hid'⟩)
                  · exact absurd hsame.symm hnew
                  · exact hid'
          · intro tag id'
            exact (h.tags tag id').trans (exists_update_same hentry (by rfl)).symm

theorem replaceManifest (h : Exact r) (id : Nat) (manifest : AgentManifest) :
    Exact (r.replaceManifest id manifest).1 := by
  unfold AgentRegistry.replaceManifest
  split
  · exact h
  · rename_i entry hentry
    constructor
    · exact h.ids_update (h.ids id entry hentry)
    · intro name id'
      exact (h.names name id').trans (exists_update_same hentry (by rfl)).symm
    · intro tag id'
      dsimp only
      rw [exists_update_some, mem_pushTags, mem_retainTags, h.tags]
      constructor
      · rintro (⟨⟨e, he, htag⟩, hnot⟩ | hnew)
        · refine .inr ⟨?_, e, he, htag⟩
          rintro rfl
          rw [hentry] at he
          cases he
          exact hnot ⟨rfl, htag⟩
        · exact .inl hnew
      · rintro (hnew | ⟨hother, hid'⟩)
        · exact .inr hnew
        · exact .inl ⟨hid', fun hself => hother hself.1⟩

theorem step (h : Exact r) (op : RegistryOp) (hfresh : FreshId r op) :
    Exact (registryStep r op) := by
  cases op with
  | register entry => exact h.register hfresh
  | remove id => exact h.remove id
  | updateName id newName disk => exact h.updateName id newName disk
  | replaceManifest id manifest => exact h.replaceManifest id manifest

end Exact

/-- A call that fails leaves all three maps alone. -/
theorem registryStep_of_failure (r : AgentRegistry) (op : RegistryOp)
    (hfail : (op.apply r).2 ≠ none) : registryStep r op = r := by
  revert hfail
  unfold registryStep
  cases op with
  | register entry =>
      simp only [RegistryOp.apply]
      fun_cases AgentRegistry.register r entry <;> simp [failure]
  | remove id =>
      simp only [RegistryOp.apply]
      fun_cases AgentRegistry.remove r id <;> simp [failure]
  | updateName id newName disk =>
      simp only [RegistryOp.apply]
      fun_cases AgentRegistry.updateName r id newName disk <;> simp [failure]
  | replaceManifest id manifest =>
      simp only [RegistryOp.apply]
      fun_cases AgentRegistry.replaceManifest r id manifest <;> simp [failure]

/-! ### Whole runs -/

/-- After every run of calls the indexes are exact and names are unique, and a call that fails
then leaves the registry as it is. -/
theorem registry_indexes_exact (ops : List RegistryOp)
    (hfresh : Guarded registryStep FreshId AgentRegistry.new ops) :
    Exact (runOps registryStep AgentRegistry.new ops) ∧
      (∀ id id' entry entry',
        (runOps registryStep AgentRegistry.new ops).agents id = some entry →
        (runOps registryStep AgentRegistry.new ops).agents id' = some entry' →
        entry.name = entry'.name → id = id') ∧
      ∀ op, (RegistryOp.apply (runOps registryStep AgentRegistry.new ops) op).2 ≠ none →
        registryStep (runOps registryStep AgentRegistry.new ops) op =
          runOps registryStep AgentRegistry.new ops := by
  have hexact : Exact (runOps registryStep AgentRegistry.new ops) :=
    runOps_invariant (fun _ op hinv hop => hinv.step op hop) Exact.new hfresh
  refine ⟨hexact, ?_, ?_⟩
  · intro id id' entry entry' hid hid' hname
    exact hexact.name_unique hid hid' hname
  · intro op hfail
    exact registryStep_of_failure _ op hfail

/-- An agent that is registered, renamed and given another manifest. -/
def renamedAgent : List RegistryOp :=
  [.register ⟨1, "coder", ["dev"], ⟨"coder", ["dev"]⟩⟩,
    .updateName 1 "writer" ⟨true, false, none⟩,
    .replaceManifest 1 ⟨"coder", ["prose"]⟩,
    .register ⟨2, "writer", [], ⟨"writer", []⟩⟩]

theorem registry_indexes_exact_renamed : Exact (runOps registryStep .new renamedAgent) :=
  (registry_indexes_exact renamedAgent
    ⟨rfl, trivial, trivial, rfl, trivial⟩).1

end ArmaraOS.Kernel

import ArmaraOS.Kernel.Manifest
import ArmaraOS.Lib.Table

/-!
The agent registry with the lineage of its agents (`openfang-kernel/src/registry.rs`).

The entries are the whole ones: manifest, parent and children. A registry has its names indexed: the
index finds each agent under its own name.
-/

namespace ArmaraOS.Kernel.Agents

open ArmaraOS.Lib Function

/-! ### Entries -/

/-- `AgentEntry`. -/
structure AgentEntry where
  id : Nat
  name : String
  tags : List String
  manifest : AgentManifest
  parent : Option Nat
  children : List Nat
  sessionId : Nat
deriving DecidableEq

/-- `AgentRegistry`. -/
structure AgentRegistry where
  agents : Table AgentEntry.id
  nameIndex : String → Option Nat
  tagIndex : String → List Nat
  named : ∀ entry ∈ agents.entries, nameIndex entry.name = some entry.id

namespace AgentRegistry

variable (r : AgentRegistry)

/-- `AgentRegistry::new`. -/
def new : AgentRegistry where
  agents := .empty
  nameIndex _ := none
  tagIndex _ := []
  named _ h := absurd h Table.not_mem_empty

/-- `AgentRegistry::get`. -/
def get (id : Nat) : Option AgentEntry := r.agents.find id

/-- `AgentRegistry::register`. -/
def register (entry : AgentEntry) : Except RegistryError AgentRegistry :=
  if htaken : (r.nameIndex entry.name).isSome then .error (.agentAlreadyExists entry.name)
  else
    .ok
      { agents := r.agents.insert entry
        nameIndex := update r.nameIndex entry.name (some entry.id)
        tagIndex := Kernel.AgentRegistry.pushTags r.tagIndex entry.id entry.tags
        named := by
          intro other hother
          by_cases hname : other.name = entry.name
          · rcases Table.mem_insert.mp hother with rfl | ⟨hmem, -⟩
            · rw [update_self]
            · refine absurd ?_ htaken
              rw [← hname, r.named other hmem]
              rfl
          · rw [update_of_ne hname]
            rcases Table.mem_insert.mp hother with rfl | ⟨hmem, -⟩
            · exact absurd rfl hname
            · exact r.named other hmem }

/-- `AgentRegistry::remove`. The children of a parent are left as they are. -/
def remove (id : Nat) : Except RegistryError (AgentRegistry × AgentEntry) :=
  match hfind : r.agents.find id with
  | none => .error (.agentNotFound id)
  | some entry =>
      .ok
        ({ agents := r.agents.erase id
           nameIndex := update r.nameIndex entry.name none
           tagIndex := Kernel.AgentRegistry.retainTags r.tagIndex id entry.tags
           named := by
             intro other hother
             obtain ⟨hmem, hne⟩ := Table.mem_erase.mp hother
             obtain ⟨hentry, hid⟩ := Table.find_eq_some_iff.mp hfind
             have hname : other.name ≠ entry.name := by
               intro hname
               have hsame := r.named other hmem
               rw [hname, r.named entry hentry, hid] at hsame
               exact hne (Option.some.inj hsame).symm
             rw [update_of_ne hname]
             exact r.named other hmem }, entry)

/-- An entry rewritten without its id and its name. -/
def rewrite (id : Nat) (f : AgentEntry → AgentEntry) (hid : ∀ entry, (f entry).id = entry.id)
    (hname : ∀ entry, (f entry).name = entry.name) : AgentRegistry where
  agents := r.agents.modify id f fun entry hentry => (hid entry).trans hentry
  nameIndex := r.nameIndex
  tagIndex := r.tagIndex
  named := by
    intro other hother
    rcases (Table.mem_modify _).mp hother with ⟨hmem, -⟩ | ⟨entry, hmem, -, rfl⟩
    · exact r.named other hmem
    · rw [hname, hid]
      exact r.named entry hmem

theorem id_pushChild (childId : Nat) (entry : AgentEntry) :
    ({ entry with children := entry.children ++ [childId] } : AgentEntry).id = entry.id := rfl

theorem name_pushChild (childId : Nat) (entry : AgentEntry) :
    ({ entry with children := entry.children ++ [childId] } : AgentEntry).name = entry.name := rfl

theorem id_setManifest (manifest : AgentManifest) (entry : AgentEntry) :
    ({ entry with manifest := manifest, tags := manifest.tags } : AgentEntry).id = entry.id := rfl

theorem name_setManifest (manifest : AgentManifest) (entry : AgentEntry) :
    ({ entry with manifest := manifest, tags := manifest.tags } : AgentEntry).name =
      entry.name := rfl

/-- `AgentRegistry::add_child`. -/
def addChild (parentId childId : Nat) : AgentRegistry :=
  r.rewrite parentId (fun entry => { entry with children := entry.children ++ [childId] })
    (id_pushChild childId) (name_pushChild childId)

/-- The registry with a new manifest for an entry, and its tags. -/
def withManifest (entry : AgentEntry) (manifest : AgentManifest) : AgentRegistry :=
  { r.rewrite entry.id (fun entry => { entry with manifest := manifest, tags := manifest.tags })
      (id_setManifest manifest) (name_setManifest manifest) with
    tagIndex := Kernel.AgentRegistry.pushTags
      (Kernel.AgentRegistry.retainTags r.tagIndex entry.id entry.tags) entry.id manifest.tags }

/-! ### Heights -/

/-- The body of `spawn_subtree_height`, `fuel` levels down: `none` when there are more. -/
def subtreeHeight : Nat → Nat → Option Nat
  | 0, _ => none
  | fuel + 1, id =>
      match r.get id with
      | none => some 0
      | some entry => (entry.children.mapM (subtreeHeight fuel)).map fun heights =>
          (heights.map (1 + ·)).foldl max 0

/-- `AgentRegistry::spawn_subtree_height`; `none` where its recursion does not end. -/
def spawnSubtreeHeight (id : Nat) : Option Nat := r.subtreeHeight (r.agents.size + 1) id

/-- `AgentRegistry::spawn_height_if_add_leaf` for a registered parent; `none` where the recursion
does not end. -/
def spawnHeightIfAddLeaf (parent : AgentEntry) : Option Nat :=
  (parent.children.mapM r.spawnSubtreeHeight).map fun heights =>
    max ((heights.map (1 + ·)).foldl max 0) 1

/-! ### Names and entries -/

variable {r}

theorem register_eq_ok {entry : AgentEntry} {r' : AgentRegistry}
    (h : r.register entry = .ok r') :
    r.nameIndex entry.name = none ∧ r'.agents = r.agents.insert entry := by
  unfold register at h
  split at h
  · cases h
  · next hfree =>
      cases h
      exact ⟨by simpa using hfree, rfl⟩

theorem register_of_free {entry : AgentEntry} (h : r.nameIndex entry.name = none) :
    ∃ r', r.register entry = .ok r' := by
  unfold register
  rw [dif_neg (by simp [h])]
  exact ⟨_, rfl⟩

theorem register_of_taken {entry : AgentEntry} (h : r.nameIndex entry.name ≠ none) :
    r.register entry = .error (.agentAlreadyExists entry.name) := by
  unfold register
  rw [dif_pos (Option.isSome_iff_ne_none.mpr h)]

theorem remove_eq_ok {id : Nat} {removed : AgentRegistry × AgentEntry}
    (h : r.remove id = .ok removed) :
    r.get id = some removed.2 ∧ removed.1.agents = r.agents.erase id ∧
      removed.1.nameIndex = update r.nameIndex removed.2.name none := by
  unfold remove at h
  split at h
  · cases h
  · next entry hfind =>
      cases h
      exact ⟨hfind, rfl, rfl⟩

theorem remove_of_registered {id : Nat} {entry : AgentEntry} (h : r.get id = some entry) :
    ∃ r', r.remove id = .ok (r', entry) := by
  unfold remove
  split
  · next hnone =>
      rw [get, hnone] at h
      cases h
  · next found hfind =>
      rw [get, hfind] at h
      cases h
      exact ⟨_, rfl⟩

/-- Two agents of one name are one agent. -/
theorem eq_of_name_eq {entry entry' : AgentEntry} (h : entry ∈ r.agents.entries)
    (h' : entry' ∈ r.agents.entries) (hname : entry.name = entry'.name) : entry = entry' := by
  have hid := r.named entry h
  rw [hname, r.named entry' h'] at hid
  exact Table.eq_of_key_eq h h' (Option.some.inj hid).symm

end AgentRegistry

end ArmaraOS.Kernel.Agents

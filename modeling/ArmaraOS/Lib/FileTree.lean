import Mathlib.Algebra.Ring.Nat
import Mathlib.Data.List.Basic
import Mathlib.Data.List.Induction

/-!
A file system of directories, files and symbolic links, and what POSIX makes of a path in it.

A location is the list of names from the root; a path may hold `.`, `..` and links on the way,
and a `.` at its end for a trailing slash. Looking a path up follows its links, up to a limit. What
holds of every lookup that finds something is shown by `follow_induction`. The location of what
exists is a path without links (`canonicalize_settled`), and a path without links leads nowhere but
to the location it spells (`lookup_noLinks`). Whoever reads or writes at a path stays under a
directory if and only if the path leads nowhere else (`touches_under_iff`).
-/

namespace ArmaraOS.Lib

/-! ### Trees -/

/-- The names from the root to a node. -/
abbrev Location := List String

/-- A component of a path. -/
inductive PathComponent where
  | name (n : String)
  | parentDir
  | curDir
deriving DecidableEq

/-- A path. A relative one starts in the working directory. -/
structure FsPath where
  absolute : Bool
  components : List PathComponent
deriving DecidableEq

/-- What stands at a location. -/
inductive FsNode where
  | dir
  | file
  | link (target : FsPath)
deriving DecidableEq

/-- A file system: everything in it stands in a directory. -/
structure FileTree where
  nodes : Location → Option FsNode
  root : nodes [] = some .dir
  parent : ∀ l n, nodes (l ++ [n]) ≠ none → nodes l = some .dir
  /-- The working directory. -/
  cwd : Location
  cwdIsDir : nodes cwd = some .dir
  /-- How many links a lookup follows at most. -/
  maxLinks : Nat

/-- Why a call of the file system fails. -/
inductive IoError where
  | notFound
  | notADirectory
  | isADirectory
  | alreadyExists
  | tooManyLinks
deriving DecidableEq

/-- The path that spells a location. -/
def Location.path (l : Location) : FsPath := ⟨true, l.map .name⟩

namespace FileTree

/-- There is a directory at a location. -/
def isDir (t : FileTree) (l : Location) : Bool := t.nodes l == some .dir

/-- The file system of a list of entries, each in a directory of the list or in the root. -/
def ofEntries (entries : List (Location × FsNode)) (maxLinks : Nat)
    (h : ∀ entry ∈ entries, entry.1.dropLast = [] ∨ (entry.1.dropLast, .dir) ∈ entries ∧
      ∀ other ∈ entries, other.1 = entry.1.dropLast → other.2 = .dir) : FileTree where
  nodes l := if l = [] then some .dir else (entries.find? fun entry => entry.1 == l).map (·.2)
  root := if_pos rfl
  parent := by
    intro l n hn
    rw [if_neg (by simp)] at hn
    cases hfind : entries.find? fun entry => entry.1 == l ++ [n] with
    | none =>
        rw [hfind] at hn
        exact absurd rfl hn
    | some entry =>
        have hkey : entry.1 = l ++ [n] := by
          have h := List.find?_some hfind
          exact beq_iff_eq.mp h
        have hup := h entry (List.mem_of_find?_eq_some hfind)
        rw [hkey, List.dropLast_concat] at hup
        split
        · rfl
        · rename_i hne
          obtain ⟨hmem, hall⟩ := hup.resolve_left hne
          cases hfind' : entries.find? fun entry => entry.1 == l with
          | none => exact absurd (beq_self_eq_true l) (List.find?_eq_none.mp hfind' _ hmem)
          | some other =>
              have hother : other.1 = l := by
                have h := List.find?_some hfind'
                exact beq_iff_eq.mp h
              rw [Option.map_some, hall other (List.mem_of_find?_eq_some hfind') hother]
  cwd := []
  cwdIsDir := if_pos rfl
  maxLinks := maxLinks

/-! ### Lookups -/

/-- A lookup from a location on. At a link it goes on by `jump`. With `create` the last name may
be missing. -/
def followFrom (t : FileTree) (create : Bool)
    (jump : Location → List PathComponent → Except IoError Location) :
    Location → List PathComponent → Except IoError Location
  | cur, [] => .ok cur
  | cur, .curDir :: rest =>
      if t.isDir cur then followFrom t create jump cur rest else .error .notADirectory
  | cur, .parentDir :: rest =>
      if t.isDir cur then followFrom t create jump cur.dropLast rest else .error .notADirectory
  | cur, .name n :: rest =>
      if t.isDir cur then
        match t.nodes (cur ++ [n]) with
        | none => if create && rest.isEmpty then .ok (cur ++ [n]) else .error .notFound
        | some (.link target) =>
            jump (if target.absolute then [] else cur) (target.components ++ rest)
        | some _ => followFrom t create jump (cur ++ [n]) rest
      else .error .notADirectory

/-- A lookup that follows so many links. -/
def follow (t : FileTree) (create : Bool) :
    Nat → Location → List PathComponent → Except IoError Location
  | 0 => t.followFrom create fun _ _ => .error .tooManyLinks
  | links + 1 => t.followFrom create (t.follow create links)

/-- The location a path leads to. The empty path leads nowhere. -/
def lookup (t : FileTree) (create : Bool) (path : FsPath) : Except IoError Location :=
  if path.absolute then t.follow create t.maxLinks [] path.components
  else if path.components.isEmpty then .error .notFound
  else t.follow create t.maxLinks t.cwd path.components

/-- The canonical location of a path to something that exists. -/
def canonicalize (t : FileTree) (path : FsPath) : Except IoError Location := t.lookup false path

/-- A path leads to something that exists. -/
def exists' (t : FileTree) (path : FsPath) : Bool := (t.canonicalize path).toBool

/-! ### Writes -/

/-- The file that is opened, or made, for writing. -/
def openForWrite (t : FileTree) (path : FsPath) : Except IoError Location :=
  match t.lookup true path with
  | .ok l => if t.isDir l then .error .isADirectory else .ok l
  | .error e => .error e

variable {t : FileTree}

/-! ### What a lookup does at each component -/

section Steps

variable {create : Bool} {links : Nat} {cur : Location}

theorem follow_nil : t.follow create links cur [] = .ok cur := by
  cases links <;> rfl

theorem follow_curDir (rest : List PathComponent) :
    t.follow create links cur (.curDir :: rest) =
      if t.isDir cur then t.follow create links cur rest else .error .notADirectory := by
  cases links <;> rfl

theorem follow_parentDir (rest : List PathComponent) :
    t.follow create links cur (.parentDir :: rest) =
      if t.isDir cur then t.follow create links cur.dropLast rest else .error .notADirectory := by
  cases links <;> rfl

theorem follow_name (n : String) (rest : List PathComponent) :
    t.follow create links cur (.name n :: rest) =
      if t.isDir cur then
        match t.nodes (cur ++ [n]), links with
        | none, _ => if create && rest.isEmpty then .ok (cur ++ [n]) else .error .notFound
        | some (.link _), 0 => .error .tooManyLinks
        | some (.link target), links + 1 =>
            t.follow create links (if target.absolute then [] else cur) (target.components ++ rest)
        | some _, links => t.follow create links (cur ++ [n]) rest
      else .error .notADirectory := by
  cases links <;> rw [follow, followFrom] <;> split <;> try rfl
  all_goals cases t.nodes (cur ++ [n]) with
    | none => rfl
    | some node => cases node <;> rfl

variable (t create) in
/-- What holds of lookups that find something, by the components that they pass and the links that
they follow. -/
theorem follow_induction {motive : Nat → Location → List PathComponent → Location → Prop}
    (nil : ∀ links cur, motive links cur [] cur)
    (curDir : ∀ links cur rest l, t.isDir cur = true → motive links cur rest l →
      motive links cur (.curDir :: rest) l)
    (parentDir : ∀ links cur rest l, t.isDir cur = true → motive links cur.dropLast rest l →
      motive links cur (.parentDir :: rest) l)
    (missing : ∀ links cur n, create = true → t.isDir cur = true → t.nodes (cur ++ [n]) = none →
      motive links cur [.name n] (cur ++ [n]))
    (link : ∀ links cur n target rest l, t.isDir cur = true →
      t.nodes (cur ++ [n]) = some (.link target) →
      motive links (if target.absolute then [] else cur) (target.components ++ rest) l →
      motive (links + 1) cur (.name n :: rest) l)
    (node : ∀ links cur n node rest l, t.isDir cur = true → t.nodes (cur ++ [n]) = some node →
      (∀ target, node ≠ .link target) → motive links (cur ++ [n]) rest l →
      motive links cur (.name n :: rest) l)
    {links : Nat} {cur l : Location} {components : List PathComponent}
    (h : t.follow create links cur components = .ok l) : motive links cur components l := by
  -- by the links that are left, and for as many of them by the components
  induction links using Nat.strong_induction_on generalizing cur components with
  | _ links ihLinks =>
      induction components generalizing cur with
      | nil =>
          rw [follow_nil] at h
          cases h
          exact nil _ _
      | cons component rest ih =>
          cases component with
          | curDir =>
              rw [follow_curDir] at h
              split at h
              · rename_i hdir
                exact curDir _ _ _ _ hdir (ih h)
              · cases h
          | parentDir =>
              rw [follow_parentDir] at h
              split at h
              · rename_i hdir
                exact parentDir _ _ _ _ hdir (ih h)
              · cases h
          | name n =>
              rw [follow_name] at h
              split at h
              · rename_i hdir
                cases hnode : t.nodes (cur ++ [n]) with
                | none =>
                    rw [hnode] at h
                    dsimp only at h
                    split at h
                    · rename_i hlast
                      rw [Bool.and_eq_true, List.isEmpty_iff] at hlast
                      cases h
                      rw [hlast.2]
                      exact missing _ _ _ hlast.1 hdir hnode
                    · cases h
                | some there =>
                    cases there with
                    | link target =>
                        cases links with
                        | zero =>
                            rw [hnode] at h
                            cases h
                        | succ left =>
                            rw [hnode] at h
                            exact link _ _ _ _ _ _ hdir hnode
                              (ihLinks left (Nat.lt_succ_self left) h)
                    | dir | file =>
                        rw [hnode] at h
                        exact node _ _ _ _ _ _ hdir hnode (fun _ heq => by cases heq) (ih h)
              · cases h

end Steps

/-! ### Lookups of longer paths -/

/-- Behind a path that leads somewhere, a lookup goes on from there, with the links that are
left. -/
theorem follow_append (create : Bool) {links : Nat} {cur l : Location}
    {components : List PathComponent} (h : t.follow false links cur components = .ok l)
    (rest : List PathComponent) :
    ∃ left, t.follow create links cur (components ++ rest) = t.follow create left l rest := by
  refine follow_induction t false
    (motive := fun links cur components l =>
      ∃ left, t.follow create links cur (components ++ rest) = t.follow create left l rest)
    (fun links cur => ⟨links, rfl⟩) ?_ ?_ (fun _ _ _ hcreate => by cases hcreate) ?_ ?_ h
  · intro links cur rest' l hdir ih
    rwa [List.cons_append, follow_curDir, if_pos hdir]
  · intro links cur rest' l hdir ih
    rwa [List.cons_append, follow_parentDir, if_pos hdir]
  · intro links cur n target rest' l hdir hlink ih
    rw [List.append_assoc] at ih
    rwa [List.cons_append, follow_name, if_pos hdir, hlink]
  · intro links cur n node rest' l hdir hnode hlink ih
    rw [List.cons_append, follow_name, if_pos hdir, hnode]
    cases node with
    | link target => exact absurd rfl (hlink target)
    | dir | file => exact ih

/-- So behind a path that exists. -/
theorem canonicalize_append (create : Bool) {path : FsPath} {l : Location}
    (h : t.canonicalize path = .ok l) (rest : List PathComponent) :
    ∃ left, t.lookup create ⟨path.absolute, path.components ++ rest⟩ =
      t.follow create left l rest := by
  rw [canonicalize, lookup] at h
  split at h
  · rename_i habs
    obtain ⟨left, hleft⟩ := follow_append create h rest
    exact ⟨left, by rw [lookup, if_pos habs, hleft]⟩
  · rename_i hrel
    split at h
    · cases h
    · rename_i hne
      obtain ⟨left, hleft⟩ := follow_append create h rest
      have hne' : (path.components ++ rest).isEmpty = false := by
        cases hpath : path.components with
        | nil => simp [hpath] at hne
        | cons c cs => rfl
      exact ⟨left, by rw [lookup, if_neg hrel, hne', if_neg Bool.false_ne_true, hleft]⟩

theorem lookup_append (create : Bool) {q l : Location}
    (h : t.lookup false (Location.path q) = .ok l) (names : List String) :
    ∃ left, t.lookup create (Location.path (q ++ names)) =
      t.follow create left l (names.map .name) := by
  obtain ⟨left, hleft⟩ := canonicalize_append create h (names.map .name)
  exact ⟨left, by rw [← hleft, Location.path, List.map_append, Location.path]⟩

/-- Something that is no link stands at a location. -/
def Settled (t : FileTree) (l : Location) : Prop :=
  t.nodes l ≠ none ∧ ∀ target, t.nodes l ≠ some (.link target)

/-- The first directory that is missing on a path: the path above it leads to `d`, where there is
no `m`. -/
structure FirstMissing (t : FileTree) (l q d : Location) (m : String) (more : List String) : Prop
    where
  path : l = q ++ m :: more
  leads : t.lookup false (Location.path q) = .ok d
  isDir : t.isDir d = true
  missing : t.nodes (d ++ [m]) = none

/-- Where a path leads that spells a location: to something that is there or can be made there, or
else to the first directory that is missing on it. -/
inductive Leads (t : FileTree) (l : Location) : Location → Prop
  | there {l' : Location} (h : t.lookup true (Location.path l) = .ok l') : Leads t l l'
  | above {q d : Location} {m n : String} {more : List String}
      (h : t.FirstMissing l q d m (more ++ [n])) : Leads t l (d ++ [m])

end FileTree

end ArmaraOS.Lib

import ArmaraOS.Security.Inheritance
import ArmaraOS.Security.SsrfFilter
import ArmaraOS.Security.WorkspaceSandbox
import ArmaraOS.Types.Json

/-!
The file and network functions that a WASM guest calls
(`openfang-runtime/src/host_functions.rs`), and what they touch.

The capability is matched against the path or the host as the guest spells it. What is touched is
what the file system and the client make of that: the location behind the links, the file that the
last component leads to, the host and port of the client's URL parser, and of where it is sent on.
Every capability list bounds these exactly where the request spells out what it reaches
(`guest_contained_iff`).
-/

namespace ArmaraOS.Security

open ArmaraOS.Lib ArmaraOS.Text

/-! ### The world of a guest -/

/-- The methods of a request. -/
inductive HttpMethod where
  | get
  | post
  | put
  | delete
deriving DecidableEq

/-- A request of the client. -/
structure HttpRequest where
  method : HttpMethod
  url : String
  body : Option String

/-- What comes of a request: the URLs that the client is sent on to, in turn, and the status with
the text of the response. -/
structure HttpExchange where
  redirects : List String
  outcome : Except String (Nat × Except String String)

/-- What the host functions ask of the system and of the client. -/
structure GuestWorld where
  tree : FileTree
  /-- The text of a file, unless it is no UTF-8. -/
  fileText : Location → Option String
  /-- The names in a directory. -/
  entries : Location → List String
  resolve : String → Option (List IpAddr)
  send : HttpRequest → HttpExchange
  lib : SsrfLibrary
  toUppercase : String → String
  capabilityText : Capability → String

/-- What a host function touches. -/
inductive Access where
  | read (l : Location)
  | list (l : Location)
  | write (l : Location) (content : String)
  | connect (host : UrlHost) (port : Nat)
deriving DecidableEq

/-- What a host function returns, and what it touched. -/
structure HostReply where
  result : Except String Json
  accesses : List Access

/-- A reply without an access. -/
def HostReply.failed (e : String) : HostReply := ⟨.error e, []⟩

/-- The text of a location. -/
def locationText (l : Location) : String := "/" ++ join "/" l

section World

variable (w : GuestWorld)

/-- The text of a host and a port. -/
def endpointText (host : UrlHost) (port : Nat) : String :=
  match host with
  | .domain name => s!"{name}:{port}"
  | .address (.v4 bits) _ => s!"{w.lib.ipText (.v4 bits)}:{port}"
  | .address (.v6 bits) _ => s!"[{w.lib.ipText (.v6 bits)}]:{port}"

/-! ### The functions -/

/-- `check_capability`. -/
def checkCapability (capabilities : List Capability) (required : Capability) :
    Except String Unit :=
  if capabilities.any fun granted => capabilityMatches granted required then .ok ()
  else .error s!"Capability denied: {w.capabilityText required}"

/-- `safe_resolve_path`. -/
def safeResolvePath (path : String) : Except String Location :=
  if hasParentDir (parsePath path) then
    .error "Path traversal denied: '..' components forbidden"
  else
    (w.tree.canonicalize (parsePath path)).mapError fun e =>
      s!"Cannot resolve path: {ioErrorText e}"

/-- `Path::parent`, unless it is empty. -/
def parentPath (path : FsPath) : Option FsPath :=
  match normalComponents path with
  | [] => none
  | component :: rest =>
      if !path.absolute && rest.isEmpty then none
      else some ⟨path.absolute, (component :: rest).dropLast⟩

/-- `Path::file_name`. -/
def fileName (path : FsPath) : Option String :=
  match (normalComponents path).getLast? with
  | some (.name n) => some n
  | _ => none

/-- `safe_resolve_parent`. -/
def safeResolveParent (path : String) : Except String FsPath :=
  if hasParentDir (parsePath path) then
    .error "Path traversal denied: '..' components forbidden"
  else
    match parentPath (parsePath path) with
    | none => .error "Invalid path: no parent directory"
    | some parent =>
        match w.tree.canonicalize parent with
        | .error e => .error s!"Cannot resolve parent directory: {ioErrorText e}"
        | .ok canonicalParent =>
            match fileName (parsePath path) with
            | none => .error "Invalid path: no file name"
            | some name =>
                if contains name ".." then .error "Path traversal denied in file name"
                else .ok (joinPath (Location.path canonicalParent) ⟨false, [.name name]⟩)

/-- A string parameter. -/
def strParam (params : Json) (key : String) : Option String := (params.get key).bind Json.asStr

/-- What a function does behind its capability check. -/
def guarded (capabilities : List Capability) (required : Capability) (reply : HostReply) :
    HostReply :=
  match checkCapability w capabilities required with
  | .error e => .failed e
  | .ok () => reply

/-- `host_fs_read` behind the check: the canonical location is read. -/
def readResolved (path : String) : HostReply :=
  match safeResolvePath w path with
  | .error e => .failed e
  | .ok canonical =>
      if w.tree.isDir canonical then .failed s!"fs_read failed: {ioErrorText .isADirectory}"
      else
        match w.fileText canonical with
        | some content => ⟨.ok (.str content), [.read canonical]⟩
        | none =>
            ⟨.error "fs_read failed: stream did not contain valid UTF-8", [.read canonical]⟩

/-- `host_fs_read`. -/
def hostFsRead (capabilities : List Capability) (params : Json) : HostReply :=
  match strParam params "path" with
  | none => .failed "Missing 'path' parameter"
  | some path => guarded w capabilities (.fileRead path) (readResolved w path)

/-- `host_fs_write` behind the check. `std::fs::write` follows a link at the last component. -/
def writeResolved (path content : String) : HostReply :=
  match safeResolveParent w path with
  | .error e => .failed e
  | .ok writePath =>
      match w.tree.openForWrite writePath with
      | .error e => .failed s!"fs_write failed: {ioErrorText e}"
      | .ok l => ⟨.ok (.bool true), [.write l content]⟩

/-- `host_fs_write`. -/
def hostFsWrite (capabilities : List Capability) (params : Json) : HostReply :=
  match strParam params "path" with
  | none => .failed "Missing 'path' parameter"
  | some path =>
      match strParam params "content" with
      | none => .failed "Missing 'content' parameter"
      | some content => guarded w capabilities (.fileWrite path) (writeResolved w path content)

/-- `host_fs_list` behind the check. -/
def listResolved (path : String) : HostReply :=
  match safeResolvePath w path with
  | .error e => .failed e
  | .ok canonical =>
      if w.tree.isDir canonical then
        ⟨.ok (.arr ((w.entries canonical).map .str)), [.list canonical]⟩
      else .failed s!"fs_list failed: {ioErrorText .notADirectory}"

/-- `host_fs_list`. -/
def hostFsList (capabilities : List Capability) (params : Json) : HostReply :=
  match strParam params "path" with
  | none => .failed "Missing 'path' parameter"
  | some path => guarded w capabilities (.fileRead path) (listResolved w path)

/-- The request that `host_net_fetch` builds. -/
def buildRequest (url method body : String) : HttpRequest :=
  let method := w.toUppercase method
  if method = "POST" then ⟨.post, url, some body⟩
  else if method = "PUT" then ⟨.put, url, some body⟩
  else if method = "DELETE" then ⟨.delete, url, none⟩
  else ⟨.get, url, none⟩

/-- The host and port that the client contacts for a URL. -/
def connectTo (url : String) : Option Access :=
  (UrlHost.endpoint w.lib.domainToAscii url).map fun (host, port) => .connect host port

/-- What the client contacts: the host of the URL, and where it is sent on from there. -/
def contacts (request : HttpRequest) : List Access :=
  match connectTo w request.url with
  | none => []
  | some first => first :: (w.send request).redirects.filterMap (connectTo w)

/-- `host_net_fetch` behind the checks. -/
def fetchResponse (request : HttpRequest) : HostReply :=
  match (w.send request).outcome with
  | .ok (status, .ok text) =>
      ⟨.ok (.obj [("body", .str text), ("status", .int status)]), contacts w request⟩
  | .ok (_, .error e) => ⟨.error s!"Failed to read response: {e}", contacts w request⟩
  | .error e => ⟨.error s!"Request failed: {e}", contacts w request⟩

/-- `host_net_fetch`. -/
def hostNetFetch (capabilities : List Capability) (params : Json) : HostReply :=
  match strParam params "url" with
  | none => .failed "Missing 'url' parameter"
  | some url =>
      let method := (strParam params "method").getD "GET"
      let body := (strParam params "body").getD ""
      match isSsrfTarget w.lib w.resolve url with
      | .error e => .failed e
      | .ok () =>
          guarded w capabilities (.netConnect (String.ofList (extractHostFromUrl url)))
            (fetchResponse w (buildRequest w url method body))

/-- The host functions that touch files or hosts. -/
inductive HostMethod where
  | fsRead
  | fsWrite
  | fsList
  | netFetch
deriving DecidableEq

/-- `dispatch`, for these functions. -/
def dispatch (capabilities : List Capability) (method : HostMethod) (params : Json) : HostReply :=
  match method with
  | .fsRead => hostFsRead w capabilities params
  | .fsWrite => hostFsWrite w capabilities params
  | .fsList => hostFsList w capabilities params
  | .netFetch => hostNetFetch w capabilities params

/-! ### What a capability list bounds -/

/-- The kind of capability an access needs, and the text that it is matched with. -/
def Access.need : Access → GlobScope × String
  | .read l => (.fileRead, locationText l)
  | .list l => (.fileRead, locationText l)
  | .write l _ => (.fileWrite, locationText l)
  | .connect host port => (.netConnect, endpointText w host port)

/-- Some capability of a list matches. -/
def Granted (capabilities : List Capability) (need : GlobScope × String) : Prop :=
  ∃ granted ∈ capabilities, capabilityMatches granted (.ofGlob need.1 need.2) = true

/-- Whatever a call touches, some capability of the guest matches. -/
def Contained (capabilities : List Capability) (method : HostMethod) (params : Json) : Prop :=
  ∀ a ∈ (dispatch w capabilities method params).accesses, Granted capabilities (a.need w)

/-- A text spells out another one: it is the same, or holds a star and stands at the end of it,
and at its start too unless the star comes first. -/
def SpellsOut (text reached : List Char) : Prop :=
  text = reached ∨ '*' ∈ text ∧ text <:+ reached ∧ (text.head? = some '*' ∨ text <+: reached)

/-- What a path of a read leads to: a location, through the links, that is of the kind read. -/
def LeadsTo (ofDir : Bool) (path : String) (l : Location) : Prop :=
  hasParentDir (parsePath path) = false ∧ w.tree.canonicalize (parsePath path) = .ok l ∧
    w.tree.isDir l = ofDir

/-- What a path of a write leads to: the file that its last component leads to, in the directory
that is above it. -/
def WritesTo (path : String) (l : Location) : Prop :=
  hasParentDir (parsePath path) = false ∧ ∃ parent dir name,
    parentPath (parsePath path) = some parent ∧ w.tree.canonicalize parent = .ok dir ∧
      fileName (parsePath path) = some name ∧ contains name ".." = false ∧
        w.tree.openForWrite (joinPath (Location.path dir) ⟨false, [.name name]⟩) = .ok l

/-- A host and port that a request leads to: of its URL, or of one that the client is sent on
to. -/
def ConnectsTo (request : HttpRequest) (host : UrlHost) (port : Nat) : Prop :=
  UrlHost.endpoint w.lib.domainToAscii request.url ≠ none ∧
    ∃ url ∈ request.url :: (w.send request).redirects,
      UrlHost.endpoint w.lib.domainToAscii url = some (host, port)

/-- A call asks for one thing, as it spells it, and leads to another. -/
def Leads (method : HostMethod) (params : Json) (asked reached : GlobScope × String) : Prop :=
  match method with
  | .fsRead => ∃ path l, strParam params "path" = some path ∧ LeadsTo w false path l ∧
      asked = (.fileRead, path) ∧ reached = (.fileRead, locationText l)
  | .fsWrite => ∃ path l, strParam params "path" = some path ∧
      (strParam params "content").isSome ∧ WritesTo w path l ∧
      asked = (.fileWrite, path) ∧ reached = (.fileWrite, locationText l)
  | .fsList => ∃ path l, strParam params "path" = some path ∧ LeadsTo w true path l ∧
      asked = (.fileRead, path) ∧ reached = (.fileRead, locationText l)
  | .netFetch => ∃ url host port, strParam params "url" = some url ∧
      isSsrfTarget w.lib w.resolve url = .ok () ∧
      ConnectsTo w (buildRequest w url ((strParam params "method").getD "GET")
        ((strParam params "body").getD "")) host port ∧
      asked = (.netConnect, String.ofList (extractHostFromUrl url)) ∧
      reached = (.netConnect, endpointText w host port)

/-! ### What patterns carry over -/

/-- What a pattern with a star asks of a text that is not the pattern itself, a longer text
keeps. -/
theorem SpellsOut.glob {text reached pattern : List Char} (h : SpellsOut text reached)
    (hmatch : globMatchesChars pattern text = true) : globMatchesChars pattern reached = true := by
  rcases h with rfl | ⟨hstar, hsuffix, hprefix⟩
  · exact hmatch
  by_cases hmem : '*' ∈ pattern
  · obtain ⟨u, v, rfl, hu⟩ := List.eq_append_cons_of_mem hmem
    have hpre : u ≠ [] → u <+: text → text <+: reached := by
      intro hne hut
      refine hprefix.resolve_left fun hhead => ?_
      obtain ⟨rest, rfl⟩ := hut
      obtain ⟨c, front, rfl⟩ := List.exists_cons_of_ne_nil hne
      cases hhead
      exact hu List.mem_cons_self
    rw [globMatchesChars_star hu] at hmatch ⊢
    refine .inr ?_
    split
    · rcases hmatch with rfl | hrest
      · exact ((List.suffix_cons '*' v).trans (List.suffix_append u _)).trans hsuffix
      · rename_i hnil
        rw [if_pos hnil] at hrest
        exact hrest.trans hsuffix
    · rename_i hne
      rw [if_neg hne] at hmatch
      split
      · rename_i hlast
        rw [if_pos hlast] at hmatch
        have hfront : u ++ ('*' :: v).dropLast <+: text := by
          rcases hmatch with rfl | hrest
          · exact (List.prefix_append_right_inj u).mpr (List.dropLast_prefix _)
          · exact hrest
        exact hfront.trans (hpre hne ((List.prefix_append u _).trans hfront))
      · rename_i hlast
        rw [if_neg hlast] at hmatch
        have hframed : Framed Char.utf8Size u v text := by
          rcases hmatch with rfl | hrest
          · refine ⟨List.prefix_append u _,
              (List.suffix_cons '*' v).trans (List.suffix_append u _), ?_⟩
            rw [room_append, room_cons]
            omega
          · exact hrest
        obtain ⟨hbegin, hend, hroom⟩ := hframed
        have hlonger := hpre hne hbegin
        exact ⟨hbegin.trans hlonger, hend.trans hsuffix,
          hroom.trans ( room_le_of_prefix hlonger)⟩
  · rw [globMatchesChars_noStar hmem] at hmatch
    exact absurd (hmatch ▸ hstar) hmem

/-- The patterns that match a text match another one exactly if the text spells that out. -/
theorem spellsOut_iff {text reached : List Char} :
    SpellsOut text reached ↔
      ∀ pattern, globMatchesChars pattern text = true →
        globMatchesChars pattern reached = true := by
  constructor
  · exact fun h pattern => h.glob
  · intro h
    rw [SpellsOut, or_iff_not_imp_left]
    intro hne
    have hself : ∀ {cs : List Char}, globMatchesChars cs cs = true := by
      intro cs
      simp [globMatchesChars]
    have hstar : '*' ∈ text := by
      by_contra hmem
      exact hne ((globMatchesChars_noStar hmem).mp (h text hself)).symm
    refine ⟨hstar, ?_, ?_⟩
    · -- the pattern of a star and the text
      have hmatch := h ([] ++ '*' :: text)
        ((globMatchesChars_star List.not_mem_nil).mpr (.inr (by simp)))
      rcases (globMatchesChars_star List.not_mem_nil).mp hmatch with rfl | hrest
      · exact List.suffix_append ['*'] text
      · simpa using hrest
    · -- the pattern of the text and a star, where the first star is not the first character
      obtain ⟨u, v, rfl, hu⟩ := List.eq_append_cons_of_mem hstar
      cases u with
      | nil => exact .inl rfl
      | cons c u =>
          refine .inr ?_
          have hlast : ('*' :: (v ++ ['*'])).getLast? = some '*' := by
            rw [← List.cons_append, List.getLast?_concat]
          have hdrop : ('*' :: (v ++ ['*'])).dropLast = '*' :: v := by
            rw [← List.cons_append, List.dropLast_concat]
          have hread := fun value => @globMatchesChars_star (c :: u) (v ++ ['*']) value hu
          simp only [if_neg (List.cons_ne_nil c u), if_pos hlast, hdrop] at hread
          rcases (hread reached).mp (h _ ((hread _).mpr (.inr List.prefix_rfl))) with rfl | hrest
          · exact ⟨['*'], by simp⟩
          · exact hrest

/-- Every list that grants one text grants another of the same kind exactly if the one spells the
other out. -/
theorem granted_carries_iff {scope : GlobScope} {text reached : String} :
    (∀ capabilities, Granted capabilities (scope, text) → Granted capabilities (scope, reached)) ↔
      SpellsOut text.toList reached.toList := by
  rw [spellsOut_iff]
  constructor
  · intro h pattern hmatch
    have hone : Granted [.ofGlob scope (String.ofList pattern)] (scope, text) :=
      ⟨_, List.mem_cons_self, Capability.matches_ofGlob.mpr ⟨text, rfl, by simpa [globMatches]⟩⟩
    obtain ⟨granted, hmem, hgranted⟩ := h _ hone
    rw [List.mem_singleton.mp hmem] at hgranted
    obtain ⟨value, hvalue, hglob⟩ := Capability.matches_ofGlob.mp hgranted
    have hsame := congrArg Capability.glob? hvalue
    rw [Capability.glob?_ofGlob, Capability.glob?_ofGlob] at hsame
    obtain ⟨-, rfl⟩ := Prod.mk.inj (Option.some.inj hsame)
    simpa [globMatches] using hglob
  · rintro h capabilities ⟨granted, hmem, hgranted⟩
    obtain ⟨pattern, rfl, hmatch⟩ := Capability.matches_to_glob hgranted
    exact ⟨_, hmem, Capability.matches_ofGlob.mpr ⟨reached, rfl, h _ hmatch⟩⟩

/-! ### What a call touches -/

theorem checkCapability_eq_ok {capabilities : List Capability} {need : GlobScope × String} :
    checkCapability w capabilities (.ofGlob need.1 need.2) = .ok () ↔
      Granted capabilities need := by
  unfold checkCapability Granted
  rw [← List.any_eq_true]
  split <;> simp_all

theorem mem_guarded {capabilities : List Capability} {need : GlobScope × String}
    {reply : HostReply} {a : Access} :
    a ∈ (guarded w capabilities (.ofGlob need.1 need.2) reply).accesses ↔
      Granted capabilities need ∧ a ∈ reply.accesses := by
  rw [← checkCapability_eq_ok w]
  unfold guarded
  split
  · rename_i hdenied
    simp [hdenied, HostReply.failed]
  · rename_i hgranted
    simp [hgranted]

theorem safeResolvePath_eq_ok {path : String} {l : Location} :
    safeResolvePath w path = .ok l ↔
      hasParentDir (parsePath path) = false ∧ w.tree.canonicalize (parsePath path) = .ok l := by
  unfold safeResolvePath
  split
  · rename_i hparent
    simp [hparent]
  · rename_i hparent
    rw [Bool.not_eq_true] at hparent
    cases w.tree.canonicalize (parsePath path) with
    | error e => simp [Except.mapError]
    | ok l' => simp [Except.mapError, hparent]

theorem mem_readResolved {path : String} {a : Access} :
    a ∈ (readResolved w path).accesses ↔ ∃ l, LeadsTo w false path l ∧ a = .read l := by
  unfold LeadsTo
  simp only [← and_assoc, ← safeResolvePath_eq_ok]
  unfold readResolved
  cases safeResolvePath w path with
  | error e => simp [HostReply.failed]
  | ok canonical =>
      dsimp only
      split
      · rename_i hdir
        simp [HostReply.failed, hdir]
      · rename_i hdir
        rw [Bool.not_eq_true] at hdir
        split <;> simp [hdir]

theorem mem_listResolved {path : String} {a : Access} :
    a ∈ (listResolved w path).accesses ↔ ∃ l, LeadsTo w true path l ∧ a = .list l := by
  unfold LeadsTo
  simp only [← and_assoc, ← safeResolvePath_eq_ok]
  unfold listResolved
  cases safeResolvePath w path with
  | error e => simp [HostReply.failed]
  | ok canonical =>
      dsimp only
      split
      · rename_i hdir
        simp [hdir]
      · rename_i hdir
        simp [HostReply.failed, hdir]

theorem safeResolveParent_eq_ok {path : String} {writePath : FsPath} :
    safeResolveParent w path = .ok writePath ↔
      hasParentDir (parsePath path) = false ∧ ∃ parent dir name,
        parentPath (parsePath path) = some parent ∧ w.tree.canonicalize parent = .ok dir ∧
          fileName (parsePath path) = some name ∧ contains name ".." = false ∧
            writePath = joinPath (Location.path dir) ⟨false, [.name name]⟩ := by
  unfold safeResolveParent
  split
  · rename_i hparent
    simp [hparent]
  · rename_i hparent
    rw [Bool.not_eq_true] at hparent
    cases parentPath (parsePath path) with
    | none => simp
    | some parent =>
        dsimp only
        cases hdir : w.tree.canonicalize parent with
        | error e => simp [hdir]
        | ok dir =>
            dsimp only
            cases fileName (parsePath path) with
            | none => simp
            | some name =>
                dsimp only
                split
                · rename_i hdots
                  simp [hdots]
                · rename_i hdots
                  rw [Bool.not_eq_true] at hdots
                  constructor
                  · rintro ⟨⟩
                    exact ⟨hparent, parent, dir, name, rfl, hdir, rfl, hdots, rfl⟩
                  · rintro ⟨-, _, _, _, hup, hdir', hname, -, rfl⟩
                    cases hup
                    cases hname
                    cases hdir.symm.trans hdir'
                    rfl

theorem mem_writeResolved {path content : String} {a : Access} :
    a ∈ (writeResolved w path content).accesses ↔
      ∃ l, WritesTo w path l ∧ a = .write l content := by
  have hwrites : ∀ l, WritesTo w path l ↔ ∃ writePath,
      safeResolveParent w path = .ok writePath ∧ w.tree.openForWrite writePath = .ok l := by
    intro l
    simp only [safeResolveParent_eq_ok]
    constructor
    · rintro ⟨hparent, parent, dir, name, hup, hdir, hname, hdots, hopen⟩
      exact ⟨_, ⟨hparent, parent, dir, name, hup, hdir, hname, hdots, rfl⟩, hopen⟩
    · rintro ⟨_, ⟨hparent, parent, dir, name, hup, hdir, hname, hdots, rfl⟩, hopen⟩
      exact ⟨hparent, parent, dir, name, hup, hdir, hname, hdots, hopen⟩
  simp only [hwrites]
  unfold writeResolved
  cases safeResolveParent w path with
  | error e => simp [HostReply.failed]
  | ok writePath =>
      dsimp only
      cases hopen : w.tree.openForWrite writePath with
      | error e => simp [HostReply.failed, hopen]
      | ok l => simp [hopen]

theorem connectTo_eq_some {url : String} {a : Access} :
    connectTo w url = some a ↔ ∃ host port,
      UrlHost.endpoint w.lib.domainToAscii url = some (host, port) ∧ a = .connect host port := by
  unfold connectTo
  rw [Option.map_eq_some_iff]
  constructor
  · rintro ⟨⟨host, port⟩, hendpoint, rfl⟩
    exact ⟨host, port, hendpoint, rfl⟩
  · rintro ⟨host, port, hendpoint, rfl⟩
    exact ⟨(host, port), hendpoint, rfl⟩

theorem mem_contacts {request : HttpRequest} {a : Access} :
    a ∈ contacts w request ↔
      ∃ host port, ConnectsTo w request host port ∧ a = .connect host port := by
  unfold ConnectsTo contacts
  cases hfirst : connectTo w request.url with
  | none =>
      have hnone : UrlHost.endpoint w.lib.domainToAscii request.url = none :=
        Option.map_eq_none_iff.mp hfirst
      simp [hnone]
  | some first =>
      have hsome : UrlHost.endpoint w.lib.domainToAscii request.url ≠ none := by
        intro hnone
        rw [connectTo, hnone] at hfirst
        cases hfirst
      have hall : first :: (w.send request).redirects.filterMap (connectTo w) =
          (request.url :: (w.send request).redirects).filterMap (connectTo w) := by
        rw [List.filterMap_cons, hfirst]
      dsimp only
      rw [hall, List.mem_filterMap]
      simp only [connectTo_eq_some]
      constructor
      · rintro ⟨url, hurl, host, port, hendpoint, rfl⟩
        exact ⟨host, port, ⟨hsome, url, hurl, hendpoint⟩, rfl⟩
      · rintro ⟨host, port, ⟨-, url, hurl, hendpoint⟩, rfl⟩
        exact ⟨url, hurl, host, port, hendpoint, rfl⟩

theorem fetchResponse_accesses (request : HttpRequest) :
    (fetchResponse w request).accesses = contacts w request := by
  unfold fetchResponse
  split <;> rfl

/-- A call touches what it leads to, where the guest is granted what it asks for. -/
theorem dispatch_touches {capabilities : List Capability} {method : HostMethod} {params : Json}
    {reached : GlobScope × String} :
    (∃ a ∈ (dispatch w capabilities method params).accesses, a.need w = reached) ↔
      ∃ asked, Leads w method params asked reached ∧ Granted capabilities asked := by
  cases method with
  | fsRead =>
      unfold dispatch hostFsRead Leads
      cases strParam params "path" with
      | none => simp [HostReply.failed]
      | some path =>
          have hmem := fun a => @mem_guarded w capabilities (.fileRead, path)
            (readResolved w path) a
          simp only [Capability.ofGlob] at hmem
          simp only [hmem, mem_readResolved]
          constructor
          · rintro ⟨_, ⟨hgranted, l, hleads, rfl⟩, rfl⟩
            exact ⟨_, ⟨path, l, rfl, hleads, rfl, rfl⟩, hgranted⟩
          · rintro ⟨_, ⟨_, l, hpath, hleads, rfl, rfl⟩, hgranted⟩
            cases hpath
            exact ⟨_, ⟨hgranted, l, hleads, rfl⟩, rfl⟩
  | fsWrite =>
      unfold dispatch hostFsWrite Leads
      cases strParam params "path" with
      | none => simp [HostReply.failed]
      | some path =>
          cases strParam params "content" with
          | none => simp [HostReply.failed]
          | some content =>
              have hmem := fun a => @mem_guarded w capabilities (.fileWrite, path)
                (writeResolved w path content) a
              simp only [Capability.ofGlob] at hmem
              simp only [hmem, mem_writeResolved]
              constructor
              · rintro ⟨_, ⟨hgranted, l, hwrites, rfl⟩, rfl⟩
                exact ⟨_, ⟨path, l, rfl, rfl, hwrites, rfl, rfl⟩, hgranted⟩
              · rintro ⟨_, ⟨_, l, hpath, -, hwrites, rfl, rfl⟩, hgranted⟩
                cases hpath
                exact ⟨_, ⟨hgranted, l, hwrites, rfl⟩, rfl⟩
  | fsList =>
      unfold dispatch hostFsList Leads
      cases strParam params "path" with
      | none => simp [HostReply.failed]
      | some path =>
          have hmem := fun a => @mem_guarded w capabilities (.fileRead, path)
            (listResolved w path) a
          simp only [Capability.ofGlob] at hmem
          simp only [hmem, mem_listResolved]
          constructor
          · rintro ⟨_, ⟨hgranted, l, hleads, rfl⟩, rfl⟩
            exact ⟨_, ⟨path, l, rfl, hleads, rfl, rfl⟩, hgranted⟩
          · rintro ⟨_, ⟨_, l, hpath, hleads, rfl, rfl⟩, hgranted⟩
            cases hpath
            exact ⟨_, ⟨hgranted, l, hleads, rfl⟩, rfl⟩
  | netFetch =>
      unfold dispatch hostNetFetch Leads
      cases strParam params "url" with
      | none => simp [HostReply.failed]
      | some url =>
          dsimp only
          cases hfilter : isSsrfTarget w.lib w.resolve url with
          | error e =>
              simp only [HostReply.failed, List.not_mem_nil, false_and, exists_false, false_iff]
              rintro ⟨_, ⟨_, host, port, hurl, hok, -⟩, -⟩
              cases hurl
              rw [hfilter] at hok
              cases hok
          | ok _ =>
              have hmem := @mem_guarded w capabilities
                (.netConnect, String.ofList (extractHostFromUrl url))
              simp only [Capability.ofGlob] at hmem
              simp only [hmem, fetchResponse_accesses, mem_contacts]
              constructor
              · rintro ⟨_, ⟨hgranted, host, port, hconnects, rfl⟩, rfl⟩
                exact ⟨_, ⟨url, host, port, rfl, hfilter, hconnects, rfl, rfl⟩, hgranted⟩
              · rintro ⟨_, ⟨_, host, port, hurl, -, hconnects, rfl, rfl⟩, hgranted⟩
                cases hurl
                exact ⟨_, ⟨hgranted, host, port, hconnects, rfl⟩, rfl⟩

/-- A call leads to things of the kind that it asks for. -/
theorem Leads.scope {method : HostMethod} {params : Json} {asked reached : GlobScope × String}
    (h : Leads w method params asked reached) : reached.1 = asked.1 := by
  cases method with
  | fsRead =>
      obtain ⟨_, _, -, -, rfl, rfl⟩ := h
      rfl
  | fsWrite =>
      obtain ⟨_, _, -, -, -, rfl, rfl⟩ := h
      rfl
  | fsList =>
      obtain ⟨_, _, -, -, rfl, rfl⟩ := h
      rfl
  | netFetch =>
      obtain ⟨_, _, _, -, -, -, rfl, rfl⟩ := h
      rfl

/-- **What guests touch.** A call keeps to a capability list exactly where the list grants all
that the call leads to, or not what it asks for; and to every list exactly where it spells out what
it leads to. -/
theorem guest_contained_iff (method : HostMethod) (params : Json) :
    (∀ capabilities, Contained w capabilities method params ↔
      ∀ asked reached, Leads w method params asked reached → Granted capabilities asked →
        Granted capabilities reached) ∧
    ((∀ capabilities, Contained w capabilities method params) ↔
      ∀ asked reached, Leads w method params asked reached →
        SpellsOut asked.2.toList reached.2.toList) := by
  have hcall : ∀ capabilities, Contained w capabilities method params ↔
      ∀ asked reached, Leads w method params asked reached → Granted capabilities asked →
        Granted capabilities reached := by
    intro capabilities
    constructor
    · intro h asked reached hleads hgranted
      obtain ⟨a, ha, rfl⟩ := (dispatch_touches w).mpr ⟨asked, hleads, hgranted⟩
      exact h a ha
    · intro h a ha
      obtain ⟨asked, hleads, hgranted⟩ := (dispatch_touches w).mp ⟨a, ha, rfl⟩
      exact h asked _ hleads hgranted
  refine ⟨hcall, ?_⟩
  simp only [hcall]
  have hcarries : ∀ {asked reached}, Leads w method params asked reached →
      ((∀ capabilities, Granted capabilities asked → Granted capabilities reached) ↔
        SpellsOut asked.2.toList reached.2.toList) := by
    intro asked reached hleads
    have hreached : reached = (asked.1, reached.2) := Prod.ext hleads.scope rfl
    rw [hreached]
    exact granted_carries_iff
  constructor
  · exact fun h asked reached hleads => (hcarries hleads).mp fun capabilities =>
      h capabilities asked reached hleads
  · exact fun h capabilities asked reached hleads =>
      (hcarries hleads).mpr (h asked reached hleads) capabilities

end World

/-! ### A link out of what is granted -/

/-- A directory of data with a link to the users of the system. -/
def linkedWorld : GuestWorld where
  tree := FileTree.ofEntries
    [(["data"], .dir), (["data", "notes"], .link ⟨true, [.name "etc", .name "passwd"]⟩),
      (["etc"], .dir), (["etc", "passwd"], .file)] 40 (by decide)
  fileText _ := some "root:x:0:0"
  entries _ := []
  resolve _ := none
  send _ := ⟨[], .error "offline"⟩
  lib := asciiLibrary
  toUppercase := String.toUpper
  capabilityText _ := ""

/-- A guest that is granted the data reads the users, through the link. -/
theorem guest_reads_behind_link : ¬ ∀ (w : GuestWorld) (capabilities : List Capability)
    (method : HostMethod) (params : Json), Contained w capabilities method params := by
  intro h
  have hread : Access.read ["etc", "passwd"] ∈ (dispatch linkedWorld [.fileRead "/data/*"] .fsRead
      (.obj [("path", .str "/data/notes")])).accesses := by decide +kernel
  obtain ⟨granted, hmem, hgranted⟩ := h _ _ _ _ _ hread
  rw [List.mem_singleton.mp hmem] at hgranted
  have hdenied : capabilityMatches (.fileRead "/data/*")
      (.ofGlob .fileRead (locationText ["etc", "passwd"])) = false := by decide +kernel
  exact Bool.false_ne_true (hdenied.symm.trans hgranted)

end ArmaraOS.Security

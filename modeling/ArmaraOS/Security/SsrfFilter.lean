import ArmaraOS.Lib.UrlHost

/-!
The two filters against server-side request forgery (`check_ssrf` in
`openfang-runtime/src/web_fetch.rs`; `is_ssrf_target` in `openfang-runtime/src/host_functions.rs`).

Each cuts a host out of the URL at fixed characters, looks it up and judges the addresses. The
client contacts the host that its own parser finds. A filter judges that host where the two are the
same name or the same address; elsewhere it judges another host, or none. Lookups do not
distinguish case.

* `fetch_judged_iff`, `target_judged_iff` — where a filter judges the host that the client
  contacts, it keeps its promise exactly under a condition on the name, its addresses and the
  allowlist.
* `unjudged_iff` — where it judges another host, it keeps its promise under every lookup exactly
  when it refuses the URL outright, or the client contacts an address that is safe.
* `ssrf_filters_iff` — the two together, for both filters.
-/

namespace ArmaraOS.Security

open ArmaraOS.Lib ArmaraOS.Text

/-! ### Cutting out the host -/

/-- The characters behind the first occurrence of `pat`, if there is one. -/
def afterFirst (pat : List Char) : List Char → Option (List Char)
  | [] => none
  | c :: cs => if pat.isPrefixOf (c :: cs) then some ((c :: cs).drop pat.length)
      else afterFirst pat cs

/-- `url.split("://").nth(1)`, up to its first slash. -/
def hostPortOf (url : String) : Option (List Char) :=
  (afterFirst "://".toList url.toList).map fun rest =>
    (beforeFirst "://".toList rest).takeWhile (· != '/')

/-- `default_port`. -/
def defaultPort (url : String) : List Char :=
  if startsWith url "https" then "443".toList else "80".toList

/-- The host and port, with the default port where none is given. -/
def withPort (url : String) (hostPort : List Char) : List Char :=
  if hostPort.contains ':' then hostPort else hostPort ++ ':' :: defaultPort url

/-- `extract_host`. -/
def extractHost (url : String) : List Char :=
  match hostPortOf url with
  | none => url.toList
  | some hostPort =>
      if hostPort.head? == some '[' && hostPort.contains ']' then
        let ipv6Host := hostPort.takeWhile (· != ']') ++ [']']
        match hostPort.drop ipv6Host.length with
        | ':' :: port => ipv6Host ++ ':' :: port
        | _ => ipv6Host ++ ':' :: defaultPort url
      else withPort url hostPort

/-- `extract_host_from_url`. -/
def extractHostFromUrl (url : String) : List Char :=
  match hostPortOf url with
  | none => url.toList
  | some hostPort => withPort url hostPort

/-- The host name that `check_ssrf` judges. -/
def fetchHostname (url : String) : List Char :=
  let host := extractHost url
  if host.head? == some '[' then
    if host.contains ']' then host.takeWhile (· != ']') ++ [']'] else host
  else host.takeWhile (· != ':')

/-- The host name that `is_ssrf_target` judges. -/
def targetHostname (url : String) : List Char := (extractHostFromUrl url).takeWhile (· != ':')

/-! ### Addresses -/

/-- `is_private_ip`; the two filters have the same. -/
def isPrivateIp : IpAddr → Bool
  | .v4 bits =>
      match IpAddr.octets bits with
      | 10 :: _ => true
      | 172 :: b :: _ => 16 ≤ b && b ≤ 31
      | 192 :: 168 :: _ => true
      | 169 :: 254 :: _ => true
      | _ => false
  | .v6 bits => IpAddr.firstSegment bits &&& 0xfe00 == 0xfc00 ||
      IpAddr.firstSegment bits &&& 0xffc0 == 0xfe80

/-- `is_metadata_ip`. -/
def isMetadataIp : IpAddr → Bool
  | .v4 bits => IpAddr.octets bits == [169, 254, 169, 254] ||
      IpAddr.octets bits == [100, 100, 100, 200] || IpAddr.octets bits == [192, 0, 0, 192]
  | .v6 _ => false

/-- `ip.is_loopback() || ip.is_unspecified() || is_private_ip(&ip)`. -/
def isInternalIp (ip : IpAddr) : Bool := ip.isLoopback || ip.isUnspecified || isPrivateIp ip

/-- `ip_in_cidr`. -/
def ipInCidr (ip base : IpAddr) (prefixLen : Nat) : Bool :=
  match ip, base with
  | .v4 ip4, .v4 base4 =>
      if 32 < prefixLen then false
      else if prefixLen = 0 then true
      else
        let mask := BitVec.allOnes 32 <<< (32 - prefixLen)
        ip4 &&& mask == base4 &&& mask
  | .v6 ip6, .v6 base6 =>
      if 128 < prefixLen then false
      else if prefixLen = 0 then true
      else
        let mask := BitVec.allOnes 128 <<< (128 - prefixLen)
        ip6 &&& mask == base6 &&& mask
  | _, _ => false

/-! ### The allowlist -/

/-- What the filters call: lowercasing, and the text of an address. -/
structure SsrfLibrary where
  toLowercase : String → String
  ipText : IpAddr → String
  /-- Decoding the percent signs of a domain and bringing it to ASCII, in the client's parser. -/
  domainToAscii : String → Option String

section Library

variable (lib : SsrfLibrary)

/-- An entry that names a host, by itself or by a wildcard. -/
def entryMatches (lower entryLower : String) : Bool :=
  entryLower == lower ||
    match entryLower.toList with
    | '*' :: '.' :: suffix => ('.' :: suffix).isSuffixOf lower.toList || lower.toList == suffix
    | _ => false

/-- `is_host_allowed`. -/
def isHostAllowed (hostname : String) (allowedHosts : List String) : Bool :=
  allowedHosts.any fun entry => entryMatches (lib.toLowercase hostname) (lib.toLowercase entry)

/-- `str::parse::<u32>`. -/
def parseU32 (cs : List Char) : Option Nat := (parseUsize cs).filter (· < 2 ^ 32)

/-- The block of an entry with a slash. -/
def entryBlock (entry : String) : Option (IpAddr × Nat) :=
  match afterFirst ['/'] entry.toList with
  | none => none
  | some prefixStr =>
      match IpAddr.parse (entry.toList.takeWhile (· != '/')), parseU32 prefixStr with
      | some baseIp, some prefixLen => some (baseIp, prefixLen)
      | _, _ => none

/-- An entry allows an address. -/
def entryAllows (ip : IpAddr) (entry : String) : Bool :=
  if entry.toList.contains '/' then
    (entryBlock entry).any fun (base, prefixLen) => ipInCidr ip base prefixLen
  else IpAddr.parse entry.toList == some ip

/-- `is_ip_allowed`. -/
def isIpAllowed (ip : IpAddr) (allowedHosts : List String) : Bool :=
  allowedHosts.any (entryAllows ip)

/-! ### Lookups -/

/-- A scope of a literal: a percent sign and digits. -/
def scopeDropped (cs : List Char) : List Char :=
  match afterFirst ['%'] cs with
  | some scope => if (parseU32 scope).isSome && scope.all Char.isDigit then
      cs.takeWhile (· != '%') else cs
  | none => cs

/-- The address that a host stands for by itself, as `to_socket_addrs` reads it: an IPv4 address,
or an IPv6 address in brackets. -/
def literalIp (hostname : List Char) : Option IpAddr :=
  match hostname with
  | '[' :: rest =>
      if rest.getLast? == some ']' then
        (IpAddr.parseV6 (scopeDropped rest.dropLast)).map .v6
      else none
  | _ => (IpAddr.parseV4 hostname).map .v4

/-- `to_socket_addrs`, as far as the addresses go; `resolve` looks names up. -/
def lookup (resolve : String → Option (List IpAddr)) (hostname : List Char) :
    Option (List IpAddr) :=
  match literalIp hostname with
  | some ip => some [ip]
  | none => resolve (toAsciiLowercase (String.ofList hostname))

/-! ### The filters -/

/-- The scheme is one of the two that are allowed. -/
def schemeAllowed (url : String) : Bool := startsWith url "http://" || startsWith url "https://"

/-- The names that `check_ssrf` refuses whatever is allowed. -/
def fetchBlocked : List String :=
  ["localhost", "ip6-localhost", "metadata.google.internal", "metadata.aws.internal",
    "instance-data", "169.254.169.254", "100.100.100.200", "192.0.0.192", "0.0.0.0", "::1", "[::1]"]

/-- The names that `is_ssrf_target` refuses. -/
def targetBlocked : List String :=
  ["localhost", "metadata.google.internal", "metadata.aws.internal", "instance-data",
    "169.254.169.254"]

/-- Why `check_ssrf` refuses an address of a host, if it does. -/
def fetchRefusal (hostname : String) (allowedHosts : List String) (ip : IpAddr) : Option String :=
  if isMetadataIp ip then
    some s!"SSRF blocked: {hostname} resolves to metadata IP {lib.ipText ip}"
  else if isInternalIp ip && !isIpAllowed ip allowedHosts then
    some s!"SSRF blocked: {hostname} resolves to private IP {lib.ipText ip}"
  else none

/-- The first refusal among the addresses of a lookup; none when it failed. -/
def firstRefusal (refusal : IpAddr → Option String) (addrs : Option (List IpAddr)) :
    Except String Unit :=
  match (addrs.getD []).findSome? refusal with
  | some e => .error e
  | none => .ok ()

/-- `check_ssrf`. -/
def checkSsrf (resolve : String → Option (List IpAddr)) (url : String)
    (allowedHosts : List String) : Except String Unit :=
  if !schemeAllowed url then .error "Only http:// and https:// URLs are allowed"
  else
    let hostname := String.ofList (fetchHostname url)
    if fetchBlocked.contains hostname then
      .error s!"SSRF blocked: {hostname} is a restricted hostname"
    else if isHostAllowed lib hostname allowedHosts then .ok ()
    else firstRefusal (fetchRefusal lib hostname allowedHosts) (lookup resolve (fetchHostname url))

/-- Why `is_ssrf_target` refuses an address of a host, if it does. -/
def targetRefusal (hostname : String) (ip : IpAddr) : Option String :=
  if isInternalIp ip then
    some s!"SSRF blocked: {hostname} resolves to private IP {lib.ipText ip}"
  else none

/-- `is_ssrf_target`, with the text of its error. -/
def isSsrfTarget (resolve : String → Option (List IpAddr)) (url : String) : Except String Unit :=
  if !schemeAllowed url then .error "Only http:// and https:// URLs are allowed"
  else
    let hostname := String.ofList (targetHostname url)
    if targetBlocked.contains hostname then
      .error s!"SSRF blocked: {hostname} is a restricted hostname"
    else firstRefusal (targetRefusal lib hostname) (lookup resolve (targetHostname url))

/-! ### What the client contacts -/

/-- The addresses that the client can contact on its first hop. -/
def contacted (resolve : String → Option (List IpAddr)) : UrlHost → List IpAddr
  | .domain name => (resolve name).getD []
  | .address ip _ => [ip]

/-- A metadata address, also in IPv4-mapped form. -/
def Metadata (a : IpAddr) : Prop := isMetadataIp a.canonical = true

/-- An address that is loopback, unspecified, private, link-local or unique-local, also in
IPv4-mapped form. -/
def Internal (a : IpAddr) : Prop := isInternalIp a.canonical = true

/-- An entry covers an address: it is in the block, or is the address. -/
def EntryCovers (entry : String) (a : IpAddr) : Prop :=
  if entry.toList.contains '/' then
    ∃ base n, entryBlock entry = some (base, n) ∧ IpAddr.SharesPrefix n a base
  else IpAddr.parse entry.toList = some a

/-- A text stands for a host: it is the name, whatever its case, or the text of the address. -/
def Names (text : List Char) : UrlHost → Prop
  | .domain name => literalIp text = none ∧ toAsciiLowercase (String.ofList text) = name
  | .address ip addressText => String.ofList text = addressText ∧ literalIp text = some ip

/-- The allowlist covers an address of a host, by the name of the host or by an entry that covers
the address. -/
def Covered (allowedHosts : List String) (host : UrlHost) (a : IpAddr) : Prop :=
  (∃ text, Names text host ∧ isHostAllowed lib (String.ofList text) allowedHosts = true) ∨
    ∃ entry ∈ allowedHosts, EntryCovers entry a ∨ EntryCovers entry a.canonical

/-- What `check_ssrf` promises of an address of a host. -/
def FetchSafe (allowedHosts : List String) (host : UrlHost) (a : IpAddr) : Prop :=
  ¬ Metadata a ∧ (Internal a → Covered lib allowedHosts host a)

/-- Where `check_ssrf` returns Ok, every address that the client can contact is safe. -/
def FetchJudges (resolve : String → Option (List IpAddr)) (url : String)
    (allowedHosts : List String) : Prop :=
  checkSsrf lib resolve url allowedHosts = .ok () →
    ∀ host, UrlHost.ofUrl lib.domainToAscii url = some host → ∀ a ∈ contacted resolve host,
      FetchSafe lib allowedHosts host a

/-- Where `is_ssrf_target` returns Ok, no address that the client can contact is of the kinds. -/
def TargetJudges (resolve : String → Option (List IpAddr)) (url : String) : Prop :=
  isSsrfTarget lib resolve url = .ok () →
    ∀ host, UrlHost.ofUrl lib.domainToAscii url = some host → ∀ a ∈ contacted resolve host,
      ¬ Metadata a ∧ ¬ Internal a

/-! ### Entries and blocks -/

/-- The test of a block, for addresses of any width. -/
theorem masked_iff {w : Nat} (ip base : BitVec w) (n : Nat) :
    (if w < n then false
      else if n = 0 then true
      else
        let mask := BitVec.allOnes w <<< (w - n)
        ip &&& mask == base &&& mask) = true ↔ n ≤ w ∧ ip >>> (w - n) = base >>> (w - n) := by
  split_ifs with hlong hzero
  · simp [hlong]
  · subst hzero
    simp [BitVec.ushiftRight_eq_zero (Nat.le_refl _)]
  · have hle : n ≤ w := by omega
    dsimp only
    rw [beq_iff_eq, IpAddr.and_mask_eq_iff]
    exact ⟨fun h => ⟨hle, h⟩, fun h => h.2⟩

/-- The test of a block is that the leading bits agree. -/
theorem ipInCidr_iff {ip base : IpAddr} {n : Nat} :
    ipInCidr ip base n = true ↔ IpAddr.SharesPrefix n ip base := by
  cases ip with
  | v4 ip4 =>
      cases base with
      | v4 base4 => exact masked_iff ip4 base4 n
      | v6 base6 => simp [ipInCidr, IpAddr.SharesPrefix]
  | v6 ip6 =>
      cases base with
      | v4 base4 => simp [ipInCidr, IpAddr.SharesPrefix]
      | v6 base6 => exact masked_iff ip6 base6 n

theorem entryAllows_iff {ip : IpAddr} {entry : String} :
    entryAllows ip entry = true ↔ EntryCovers entry ip := by
  unfold entryAllows EntryCovers
  split
  · rw [Option.any_eq_true]
    simp only [Prod.exists, ipInCidr_iff]
  · exact beq_iff_eq

theorem isIpAllowed_iff {ip : IpAddr} {allowedHosts : List String} :
    isIpAllowed ip allowedHosts = true ↔ ∃ entry ∈ allowedHosts, EntryCovers entry ip := by
  simp only [isIpAllowed, List.any_eq_true, entryAllows_iff]

/-! ### What the filters let through -/

theorem firstRefusal_eq_ok {refusal : IpAddr → Option String} {addrs : Option (List IpAddr)} :
    firstRefusal refusal addrs = .ok () ↔ ∀ a ∈ addrs.getD [], refusal a = none := by
  unfold firstRefusal
  rw [← List.findSome?_eq_none_iff]
  cases (addrs.getD []).findSome? refusal <;> simp

/-- An address of the lookup that `check_ssrf` does not refuse. -/
def FetchAdmits (allowedHosts : List String) (a : IpAddr) : Prop :=
  isMetadataIp a = false ∧ (isInternalIp a = true → isIpAllowed a allowedHosts = true)

theorem fetchRefusal_eq_none {hostname : String} {allowedHosts : List String} {a : IpAddr} :
    fetchRefusal lib hostname allowedHosts a = none ↔ FetchAdmits allowedHosts a := by
  unfold fetchRefusal FetchAdmits
  split_ifs with hmetadata hinternal
  · simp [hmetadata]
  · simp_all
  · simp_all

theorem targetRefusal_eq_none {hostname : String} {a : IpAddr} :
    targetRefusal lib hostname a = none ↔ isInternalIp a = false := by
  unfold targetRefusal
  split_ifs with hinternal <;> simp_all

theorem checkSsrf_eq_ok {resolve : String → Option (List IpAddr)} {url : String}
    {allowedHosts : List String} :
    checkSsrf lib resolve url allowedHosts = .ok () ↔
      schemeAllowed url = true ∧ String.ofList (fetchHostname url) ∉ fetchBlocked ∧
        (isHostAllowed lib (String.ofList (fetchHostname url)) allowedHosts = true ∨
          ∀ a ∈ (lookup resolve (fetchHostname url)).getD [], FetchAdmits allowedHosts a) := by
  unfold checkSsrf
  dsimp only
  split_ifs with hscheme hblocked hallowed
  · simp_all
  · simp_all
  · simp_all
  · rw [firstRefusal_eq_ok]
    simp_all [fetchRefusal_eq_none]

theorem isSsrfTarget_eq_ok {resolve : String → Option (List IpAddr)} {url : String} :
    isSsrfTarget lib resolve url = .ok () ↔
      schemeAllowed url = true ∧ String.ofList (targetHostname url) ∉ targetBlocked ∧
        ∀ a ∈ (lookup resolve (targetHostname url)).getD [], isInternalIp a = false := by
  unfold isSsrfTarget
  dsimp only
  split_ifs with hscheme hblocked
  · simp_all
  · simp_all
  · rw [firstRefusal_eq_ok]
    simp_all [targetRefusal_eq_none]

/-! ### The host that is judged -/

/-- The host name that a filter cuts out of a URL stands for the host that the client contacts. -/
def Judged (hostname : List Char) (url : String) : Prop :=
  ∀ host, UrlHost.ofUrl lib.domainToAscii url = some host → Names hostname host

/-- A filter refuses the URL before it looks a name up: for its scheme, for the name itself, or for
the address that the name is. -/
def RefusedOutright (url : String) (hostname : List Char) (blocked : List String)
    (Refuses : IpAddr → Prop) : Prop :=
  schemeAllowed url = false ∨ String.ofList hostname ∈ blocked ∨
    ∃ ip, literalIp hostname = some ip ∧ Refuses ip

/-- The host of the URL is an address, and a safe one. -/
def SafeAddress (Safe : UrlHost → IpAddr → Prop) (url : String) : Prop :=
  ∃ ip text, UrlHost.ofUrl lib.domainToAscii url = some (.address ip text) ∧
    Safe (.address ip text) ip

/-- What a host name stands for is looked up under it. -/
theorem contacted_of_names (resolve : String → Option (List IpAddr)) {hostname : List Char}
    {host : UrlHost} (h : Names hostname host) :
    contacted resolve host = (lookup resolve hostname).getD [] := by
  cases host with
  | domain name =>
      obtain ⟨hname, rfl⟩ := h
      rw [lookup, hname]
      rfl
  | address ip text =>
      obtain ⟨-, hliteral⟩ := h
      rw [lookup, hliteral]
      rfl

/-- A filter that judges another host than the one that the client contacts lets through an address
that is not safe under some lookup, unless it refuses the URL outright or the host is a safe
address. -/
theorem unjudged_iff {url : String} {hostname : List Char} {blocked : List String}
    {Refuses : IpAddr → Prop} {Safe : UrlHost → IpAddr → Prop}
    (hrefused : ∀ name, ¬ Safe (.domain name) (.ofOctets 169 254 169 254))
    (h : ¬ Judged lib hostname url) :
    (∀ resolve, (schemeAllowed url = true ∧ String.ofList hostname ∉ blocked ∧
        ∀ a ∈ (lookup resolve hostname).getD [], ¬ Refuses a) →
      ∀ host, UrlHost.ofUrl lib.domainToAscii url = some host → ∀ a ∈ contacted resolve host,
        Safe host a) ↔
      RefusedOutright url hostname blocked Refuses ∨ SafeAddress lib Safe url := by
  unfold Judged at h
  push Not at h
  obtain ⟨host, hhost, hother⟩ := h
  constructor
  · intro hjudges
    by_contra hneither
    rw [not_or, RefusedOutright, not_or, not_or] at hneither
    obtain ⟨⟨hscheme, hblocked, hliteral⟩, hharmful⟩ := hneither
    rw [Bool.not_eq_false] at hscheme
    push Not at hliteral
    have hadmits : ∀ resolve : String → Option (List IpAddr),
        (literalIp hostname = none → resolve (toAsciiLowercase (String.ofList hostname)) = none) →
          ∀ a ∈ (lookup resolve hostname).getD [], ¬ Refuses a := by
      intro resolve hunknown a ha
      unfold lookup at ha
      split at ha
      · next ip hip =>
          rw [List.mem_singleton.mp ha]
          exact hliteral ip hip
      · next hnone =>
          rw [hunknown hnone] at ha
          cases ha
    cases host with
    | domain name =>
        -- the client's name has a metadata address, and the name that is judged has none
        exact hrefused name (hjudges
          (fun text => if text = name then some [.ofOctets 169 254 169 254] else none)
          ⟨hscheme, hblocked, hadmits _ fun hnone => if_neg fun hsame => hother ⟨hnone, hsame⟩⟩
          _ hhost _ (by simp [contacted]))
    | address ip text =>
        have hcontact := hjudges (fun _ => none) ⟨hscheme, hblocked, hadmits _ fun _ => rfl⟩
          _ hhost ip (List.mem_singleton.mpr rfl)
        exact hharmful ⟨ip, text, hhost, hcontact⟩
  · rintro (hrefused | ⟨ip, text, haddress, hsafe⟩) resolve ⟨hscheme, hblocked, hadmits⟩ host'
      hhost' a ha
    · rcases hrefused with hscheme' | hblocked' | ⟨ip, hliteral, hrefuses⟩
      · rw [hscheme'] at hscheme
        cases hscheme
      · exact absurd hblocked' hblocked
      · exact absurd hrefuses (hadmits ip (by simp [lookup, hliteral]))
    · rw [haddress] at hhost'
      cases hhost'
      obtain rfl := List.mem_singleton.mp ha
      exact hsafe

/-! ### Where the filters hold -/

/-- The condition on a URL whose host `check_ssrf` judges: it is refused for its scheme or its
name; or the name is allowed, and is not that of a metadata address; or one of its addresses is
refused, or those of its addresses that are IPv4-mapped are safe. -/
def FetchMeets (resolve : String → Option (List IpAddr)) (url : String)
    (allowedHosts : List String) : Prop :=
  ∀ host, UrlHost.ofUrl lib.domainToAscii url = some host → schemeAllowed url = true →
    String.ofList (fetchHostname url) ∉ fetchBlocked →
      if isHostAllowed lib (String.ofList (fetchHostname url)) allowedHosts = true then
        ∀ a ∈ contacted resolve host, ¬ Metadata a
      else
        (∀ a ∈ contacted resolve host, FetchAdmits allowedHosts a) →
          ∀ a ∈ contacted resolve host, a.canonical ≠ a → FetchSafe lib allowedHosts host a

/-- The condition on a URL whose host `is_ssrf_target` judges: it is refused for its scheme or its
name; or one of its addresses is refused, or none of them is a metadata address, or IPv4-mapped and
of the other kinds. -/
def TargetMeets (resolve : String → Option (List IpAddr)) (url : String) : Prop :=
  ∀ host, UrlHost.ofUrl lib.domainToAscii url = some host → schemeAllowed url = true →
    String.ofList (targetHostname url) ∉ targetBlocked →
      (∀ a ∈ contacted resolve host, isInternalIp a = false) →
        ∀ a ∈ contacted resolve host, ¬ Metadata a ∧ (a.canonical ≠ a → ¬ Internal a)

/-- An address that is admitted is safe, unless it is IPv4-mapped. -/
theorem FetchAdmits.safe {allowedHosts : List String} {a : IpAddr}
    (h : FetchAdmits allowedHosts a) (hcanonical : a.canonical = a) (host : UrlHost) :
    FetchSafe lib allowedHosts host a := by
  obtain ⟨hmetadata, hinternal⟩ := h
  constructor
  · unfold Metadata
    simp [hcanonical, hmetadata]
  · unfold Internal
    rw [hcanonical]
    intro hkind
    obtain ⟨entry, hentry, hcovers⟩ := isIpAllowed_iff.mp (hinternal hkind)
    exact .inr ⟨entry, hentry, .inl hcovers⟩

/-- Where `check_ssrf` judges the host that the client contacts, what it promises holds exactly
under its condition. -/
theorem fetch_judged_iff {url : String} (h : Judged lib (fetchHostname url) url)
    (resolve : String → Option (List IpAddr)) (allowedHosts : List String) :
    FetchJudges lib resolve url allowedHosts ↔ FetchMeets lib resolve url allowedHosts := by
  unfold FetchJudges FetchMeets
  rw [checkSsrf_eq_ok]
  constructor
  · intro hjudges host hhost hscheme hblocked
    have hlookup := contacted_of_names resolve (h host hhost)
    split
    · next hallowed =>
        exact fun a ha => (hjudges ⟨hscheme, hblocked, .inl hallowed⟩ host hhost a ha).1
    · intro hadmits a ha _
      rw [hlookup] at hadmits
      exact hjudges ⟨hscheme, hblocked, .inr hadmits⟩ host hhost a ha
  · rintro hmeets ⟨hscheme, hblocked, hpasses⟩ host hhost a ha
    have hlookup := contacted_of_names resolve (h host hhost)
    have hcondition := hmeets host hhost hscheme hblocked
    by_cases hallowed :
        isHostAllowed lib (String.ofList (fetchHostname url)) allowedHosts = true
    · rw [if_pos hallowed] at hcondition
      exact ⟨hcondition a ha, fun _ => .inl ⟨fetchHostname url, h host hhost, hallowed⟩⟩
    · rw [if_neg hallowed, hlookup] at hcondition
      have hadmits := hpasses.resolve_left hallowed
      rw [hlookup] at ha
      by_cases hcanonical : a.canonical = a
      · exact (hadmits a ha).safe lib hcanonical host
      · exact hcondition hadmits a ha hcanonical

/-- So with `is_ssrf_target`. -/
theorem target_judged_iff {url : String} (h : Judged lib (targetHostname url) url)
    (resolve : String → Option (List IpAddr)) :
    TargetJudges lib resolve url ↔ TargetMeets lib resolve url := by
  unfold TargetJudges TargetMeets
  rw [isSsrfTarget_eq_ok]
  constructor
  · intro hjudges host hhost hscheme hblocked hadmits a ha
    rw [contacted_of_names resolve (h host hhost)] at hadmits
    obtain ⟨hmetadata, hinternal⟩ := hjudges ⟨hscheme, hblocked, hadmits⟩ host hhost a ha
    exact ⟨hmetadata, fun _ => hinternal⟩
  · rintro hmeets ⟨hscheme, hblocked, hadmits⟩ host hhost a ha
    rw [← contacted_of_names resolve (h host hhost)] at hadmits
    obtain ⟨hmetadata, hmapped⟩ := hmeets host hhost hscheme hblocked hadmits a ha
    refine ⟨hmetadata, ?_⟩
    by_cases hcanonical : a.canonical = a
    · unfold Internal
      simp [hcanonical, hadmits a ha]
    · exact hmapped hcanonical

/-- A literal that `check_ssrf` refuses: its text is not that of an allowed host, and the address
is not admitted. -/
def FetchRefuses (hostname : List Char) (allowedHosts : List String) (a : IpAddr) : Prop :=
  isHostAllowed lib (String.ofList hostname) allowedHosts = false ∧ ¬ FetchAdmits allowedHosts a

/-- Where `check_ssrf` judges another host than the client contacts, it keeps its promise under
every lookup exactly when it refuses the URL outright or the client contacts a safe address. -/
theorem fetch_unjudged_iff {url : String} (h : ¬ Judged lib (fetchHostname url) url)
    (allowedHosts : List String) :
    (∀ resolve, FetchJudges lib resolve url allowedHosts) ↔
      RefusedOutright url (fetchHostname url) fetchBlocked
          (FetchRefuses lib (fetchHostname url) allowedHosts) ∨
        SafeAddress lib (FetchSafe lib allowedHosts) url := by
  have hrefused : ∀ name,
      ¬ FetchSafe lib allowedHosts (.domain name) (.ofOctets 169 254 169 254) :=
    fun name hsafe => hsafe.1 (by unfold Metadata; decide)
  rw [← unjudged_iff lib hrefused h]
  refine forall_congr' fun resolve => ?_
  unfold FetchJudges
  rw [checkSsrf_eq_ok]
  by_cases hallowed : isHostAllowed lib (String.ofList (fetchHostname url)) allowedHosts = true
  · simp [FetchRefuses, hallowed]
  · simp [FetchRefuses, hallowed]

/-- So with `is_ssrf_target`. -/
theorem target_unjudged_iff {url : String} (h : ¬ Judged lib (targetHostname url) url) :
    (∀ resolve, TargetJudges lib resolve url) ↔
      RefusedOutright url (targetHostname url) targetBlocked (fun a => isInternalIp a = true) ∨
        SafeAddress lib (fun _ a => ¬ Metadata a ∧ ¬ Internal a) url := by
  rw [← unjudged_iff lib (fun name hsafe => hsafe.1 (by unfold Metadata; decide)) h]
  refine forall_congr' fun resolve => ?_
  unfold TargetJudges
  rw [isSsrfTarget_eq_ok]
  simp only [Bool.not_eq_true]

/-- **The filters and the host that is contacted.** Where the host name that a filter cuts out of
the URL stands for the host that the client contacts, what the filter promises holds exactly under
the filter's condition. Where it stands for another host, or none, the filter keeps its promise
under every lookup exactly when it refuses the URL outright, or the client contacts a safe
address. -/
theorem ssrf_filters_iff (url : String) :
    (∀ allowedHosts, (Judged lib (fetchHostname url) url → ∀ resolve,
        FetchJudges lib resolve url allowedHosts ↔ FetchMeets lib resolve url allowedHosts) ∧
      (¬ Judged lib (fetchHostname url) url →
        ((∀ resolve, FetchJudges lib resolve url allowedHosts) ↔
          RefusedOutright url (fetchHostname url) fetchBlocked
              (FetchRefuses lib (fetchHostname url) allowedHosts) ∨
            SafeAddress lib (FetchSafe lib allowedHosts) url))) ∧
    (Judged lib (targetHostname url) url → ∀ resolve,
        TargetJudges lib resolve url ↔ TargetMeets lib resolve url) ∧
      (¬ Judged lib (targetHostname url) url →
        ((∀ resolve, TargetJudges lib resolve url) ↔
          RefusedOutright url (targetHostname url) targetBlocked
              (fun a => isInternalIp a = true) ∨
            SafeAddress lib (fun _ a => ¬ Metadata a ∧ ¬ Internal a) url)) :=
  ⟨fun allowedHosts => ⟨fun hsame resolve => fetch_judged_iff lib hsame resolve allowedHosts,
      fun hother => fetch_unjudged_iff lib hother allowedHosts⟩,
    target_judged_iff lib, target_unjudged_iff lib⟩

end Library

/-! ### A host behind userinfo -/

/-- Lowercasing and domains of ASCII. -/
def asciiLibrary : SsrfLibrary where
  toLowercase := toAsciiLowercase
  ipText _ := ""
  domainToAscii text := some (toAsciiLowercase text)

/-- The filters look `example.com@169.254.169.254` up and find nothing; the client takes what is
before the `@` for a user, and contacts the metadata address. -/
theorem userinfo_hides_metadata : ¬ ∀ (lib : SsrfLibrary)
    (resolve : String → Option (List IpAddr)) (url : String) (allowedHosts : List String),
    FetchJudges lib resolve url allowedHosts ∧ TargetJudges lib resolve url := by
  intro h
  have hjudges := (h asciiLibrary (fun _ => none) "http://example.com@169.254.169.254/latest/"
    []).1
  have hpasses : checkSsrf asciiLibrary (fun _ => none)
      "http://example.com@169.254.169.254/latest/" [] = .ok () := by decide +kernel
  have hhost : UrlHost.ofUrl asciiLibrary.domainToAscii
      "http://example.com@169.254.169.254/latest/" =
        some (.address (.ofOctets 169 254 169 254) "169.254.169.254") := by decide +kernel
  have hsafe := hjudges hpasses _ hhost _ (List.mem_singleton.mpr rfl)
  exact hsafe.1 (by unfold Metadata; decide)

end ArmaraOS.Security

import ArmaraOS.Lib.IpAddress
import ArmaraOS.Lib.Text

/-!
The host of an `http` or `https` URL, as the WHATWG URL standard parses it.

The states of the standard's parser from the scheme to the port are here as functions on the rest
of the text. Decoding the percent signs of a domain and bringing it to ASCII is a parameter.
-/

namespace ArmaraOS.Lib

open ArmaraOS.Text

/-- The host of a URL: a domain, or an address with the text that it was read from. -/
inductive UrlHost where
  | domain (name : String)
  | address (ip : IpAddr) (text : String)
deriving DecidableEq

namespace UrlHost

/-! ### Authority -/

/-- A C0 control or a space. -/
def isEdge (c : Char) : Bool := c.toNat ≤ 0x20

/-- A tab or a newline. -/
def isTabOrNewline (c : Char) : Bool := c == '\t' || c == '\n' || c == '\r'

/-- The URL without the characters that the parser takes out first. -/
def cleaned (url : List Char) : List Char :=
  (trimChars isEdge url).filter fun c => !isTabOrNewline c

/-- A slash, or a backslash that counts as one. -/
def isSlash (c : Char) : Bool := c == '/' || c == '\\'

/-- The end of an authority. -/
def endsAuthority (c : Char) : Bool := isSlash c || c == '?' || c == '#'

/-- What stands behind a special scheme and its slashes, however many there are. -/
def afterScheme (url : List Char) : Option (List Char) :=
  let scheme := (url.takeWhile (· != ':')).map Char.toLower
  if url.contains ':' && (scheme == "http".toList || scheme == "https".toList) then
    some ((url.drop (scheme.length + 1)).dropWhile isSlash)
  else none

/-- The text behind the last `c`, if there is one. -/
def afterLast (c : Char) : List Char → Option (List Char)
  | [] => none
  | d :: cs => (afterLast c cs).or (if d = c then some cs else none)

/-- The host and port of an authority; behind userinfo there has to be something. -/
def afterUserinfo (authority : List Char) : Option (List Char) :=
  match afterLast '@' authority with
  | none => some authority
  | some hostPort => if hostPort.isEmpty then none else some hostPort

/-- The host, and the port behind the first colon that is not in brackets. -/
def hostAndPort (insideBrackets : Bool) : List Char → List Char × Option (List Char)
  | [] => ([], none)
  | c :: cs =>
      if c = ':' ∧ !insideBrackets then ([], some cs)
      else
        let insideBrackets := if c = '[' then true else if c = ']' then false else insideBrackets
        let rest := hostAndPort insideBrackets cs
        (c :: rest.1, rest.2)

/-- A port: digits, up to 65535, or nothing. -/
def validPort : Option (List Char) → Bool
  | none => true
  | some digits => digits.all Char.isDigit && ((IpAddr.readNumber 10 digits).any (· < 2 ^ 16))

/-! ### Hosts -/

/-- A number of the IPv4 parser: hexadecimal behind `0x`, octal behind `0`. -/
def ipv4Number : List Char → Option Nat
  | [] => none
  | '0' :: 'x' :: cs => IpAddr.readNumber 16 cs
  | '0' :: 'X' :: cs => IpAddr.readNumber 16 cs
  | '0' :: c :: cs => IpAddr.readNumber 8 (c :: cs)
  | cs => IpAddr.readNumber 10 cs

/-- The parts between dots, without one that is empty behind the last. -/
def ipv4Parts (cs : List Char) : List (List Char) :=
  let parts := cs.splitOn '.'
  if 1 < parts.length && parts.getLast? == some [] then parts.dropLast else parts

/-- The ends-in-a-number checker. -/
def endsInNumber (cs : List Char) : Bool :=
  (ipv4Parts cs).getLast?.any fun last =>
    (!last.isEmpty && last.all Char.isDigit) || (ipv4Number last).isSome

/-- The IPv4 parser: one to four numbers, the last of which fills the octets that are left. -/
def parseIpv4 (cs : List Char) : Option (BitVec 32) :=
  let parts := ipv4Parts cs
  if 4 < parts.length then none
  else
    (parts.mapM ipv4Number).bind fun numbers =>
      let last := numbers.getLastD 0
      if numbers.dropLast.all (· ≤ 255) && last < 256 ^ (5 - numbers.length) then
        some (BitVec.ofNat 32
          (numbers.dropLast.foldl (fun n octet => n * 256 + octet) 0 * 256 ^ (5 - numbers.length) +
            last))
      else none

/-- A forbidden domain code point. -/
def isForbidden (c : Char) : Bool :=
  c.toNat ≤ 0x20 || c.toNat == 0x7f || "#%/:<>?@[\\]^|".toList.contains c

/-- The host parser. `domainToAscii` decodes the percent signs of a domain and brings it to
ASCII. -/
def parseHost (domainToAscii : String → Option String) (text : List Char) : Option UrlHost :=
  match text with
  | '[' :: rest =>
      if rest.getLast? == some ']' then
        (IpAddr.parseV6 rest.dropLast).map fun bits => .address (.v6 bits) (String.ofList text)
      else none
  | _ =>
      match domainToAscii (String.ofList text) with
      | none => none
      | some ascii =>
          if ascii.isEmpty || ascii.toList.any isForbidden then none
          else if endsInNumber ascii.toList then
            (parseIpv4 ascii.toList).map fun bits => .address (.v4 bits) (String.ofList text)
          else some (.domain ascii)

/-- The host of a URL. -/
def ofUrl (domainToAscii : String → Option String) (url : String) : Option UrlHost :=
  (afterScheme (cleaned url.toList)).bind fun rest =>
    (afterUserinfo (rest.takeWhile fun c => !endsAuthority c)).bind fun authority =>
      let (host, port) := hostAndPort false authority
      if host.isEmpty || !validPort port then none else parseHost domainToAscii host

example : (ofUrl some "http://good@0x7f.1:80/", ofUrl some "https:/\\[::1]?@evil") =
    (some (.address (.v4 0x7f000001#32) "0x7f.1"), some (.address (.v6 1#128) "[::1]")) := by
  decide +kernel

/-! ### Ports -/

/-- The port of a scheme. -/
def defaultPort (url : List Char) : Nat :=
  if (url.takeWhile (· != ':')).map Char.toLower == "https".toList then 443 else 80

/-- The port of a URL: the one of its scheme where none is given. -/
def portNumber (url : List Char) : Option (List Char) → Nat
  | none => defaultPort url
  | some [] => defaultPort url
  | some digits => (IpAddr.readNumber 10 digits).getD 0

/-- The host and the port of a URL. -/
def endpoint (domainToAscii : String → Option String) (url : String) : Option (UrlHost × Nat) :=
  (afterScheme (cleaned url.toList)).bind fun rest =>
    (afterUserinfo (rest.takeWhile fun c => !endsAuthority c)).bind fun authority =>
      let (host, port) := hostAndPort false authority
      if host.isEmpty || !validPort port then none
      else (parseHost domainToAscii host).map fun host => (host, portNumber (cleaned url.toList) port)

end UrlHost

end ArmaraOS.Lib

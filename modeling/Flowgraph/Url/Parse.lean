import Flowgraph.Url.Domain

/-!
# Locators

Whether a text is the locator of something on the network, and if not, why. A locator is a
scheme, for most schemes a host that a user may precede and a number may follow, and a path
that may be anything.
-/

set_option autoImplicit false

namespace Flowgraph.Url

/-- Why a text is not a locator. -/
inductive Fault where
  | noScheme
  | emptyHost
  | hostNumber
  | address4
  | address6
  | domain
  | hostCharacter
  deriving DecidableEq

/-- The wording of a fault. -/
def Fault.message : Fault → String
  | .noScheme => "relative URL without a base"
  | .emptyHost => "empty host"
  | .hostNumber => "invalid port number"
  | .address4 => "invalid IPv4 address"
  | .address6 => "invalid IPv6 address"
  | .domain => "invalid international domain name"
  | .hostCharacter => "invalid domain character"

/-- How a scheme is followed up. -/
inductive Style where
  /-- A host has to be there, and slashes may lean either way. -/
  | web
  | file
  | other
  deriving DecidableEq

/-- The style of a scheme. -/
def styleOf (scheme : String) : Style :=
  if scheme = "file" then .file
  else if scheme ∈ ["http", "https", "ws", "wss", "ftp"] then .web
  else .other

/-- Drops controls and spaces on both sides, and tabs and line breaks everywhere. -/
def clean (text : List Char) : List Char :=
  let drop := List.dropWhile fun c : Char => c.toNat ≤ 0x20
  (drop (drop text).reverse).reverse.filter fun c => c != '\t' && c != '\n' && c != '\r'

/-- The scheme in lower case and what follows its colon. -/
def scheme? (text : List Char) : Option (String × List Char) :=
  let scheme := text.takeWhile fun c => c.isAlphanum || c == '+' || c == '-' || c == '.'
  match scheme, text.drop scheme.length with
  | first :: _, ':' :: rest =>
    if first.isAlpha then some (String.ofList (scheme.map Char.toLower), rest) else none
  | _, _ => none

/-- Whether a character ends the part of a locator that names the host. -/
def endsAuthority (style : Style) (c : Char) : Bool :=
  c == '/' || c == '?' || c == '#' || (c == '\\' && style != .other)

/-! ### Hosts -/

/-- The bytes of a text with the escapes by percent signs replaced. -/
def unescape : List UInt8 → List UInt8
  | [] => []
  | [a] => [a]
  | [a, b] => [a, b]
  | a :: b :: c :: rest =>
    if a = 0x25 then
      match Text.hexValue? (Char.ofNat b.toNat), Text.hexValue? (Char.ofNat c.toNat) with
      | some high, some low => (high * 16 + low).toUInt8 :: unescape rest
      | _, _ => a :: unescape (b :: c :: rest)
    else a :: unescape (b :: c :: rest)

/-- An address of version six in brackets, or nothing of the kind. -/
def bracketed? (host : List Char) : Option (Except Fault Unit) :=
  match host with
  | '[' :: rest =>
    some (if rest.getLast? = some ']' ∧ isAddress6 rest.dropLast then .ok ()
      else .error .address6)
  | _ => none

/-- Checks a host that is a domain or an address. -/
def checkDomain (host : List Char) : Except Fault (List Char) :=
  match bracketed? host with
  | some result => result.map fun _ => host
  | none =>
    let bytes := unescape (String.ofList host).toUTF8.toList
    match (String.fromUTF8? ⟨bytes.toArray⟩).bind fun s => mapDomain s.toList with
    | none => .error .domain
    | some [] => .error .emptyHost
    | some domain =>
      if endsInNumber domain && !isAddress4 domain then .error .address4 else .ok domain

/-- Checks a host of a scheme that attaches no meaning to it. -/
def checkOpaque (host : List Char) : Except Fault Unit :=
  match bracketed? host with
  | some result => result
  | none =>
    if host.any "\x00\t\n\r #/:<>?@[\\]^|".toList.contains then .error .hostCharacter
    else .ok ()

/-- The host at the start of a text: up to a colon outside of brackets or the end of the
part that names the host. -/
def hostLength (style : Style) : (inside : Bool) → List Char → Nat
  | _, [] => 0
  | inside, c :: rest =>
    if (c == ':' && !inside) || endsAuthority style c then 0
    else hostLength style (if c = '[' then true else if c = ']' then false else inside) rest + 1

/-- Checks the number that follows a host up to the path. -/
def checkNumber (value : Nat) : List Char → Except Fault Unit
  | [] => .ok ()
  | c :: rest =>
    if c.isDigit then
      let value := 10 * value + Decimal.digitValue c
      if 65535 < value then .error .hostNumber else checkNumber value rest
    else if endsAuthority .web c then .ok ()
    else .error .hostNumber

/-- Whether a user is named: a name or a password. -/
def namesUser : List Char → Bool
  | [] => false
  | [':'] => false
  | _ => true

/-- Checks the user, the host and the number after it. -/
def checkAuthority (style : Style) (text : List Char) : Except Fault Unit := do
  let authority := text.takeWhile (!endsAuthority style ·)
  let host := (authority.reverse.takeWhile (· ≠ '@')).reverse
  let user := authority.take (authority.length - host.length - 1)
  let marked := host.length < authority.length
  -- nothing stands on either side of the `@`, and a path follows
  if marked && user.isEmpty && host.isEmpty && text.length ≠ authority.length then
    throw .emptyHost
  let name := host.take (hostLength style false host)
  let rest := host.drop name.length ++ text.drop authority.length
  if name.isEmpty then
    if style = .web ∨ rest.head? = some ':' ∨ namesUser user then throw .emptyHost
  else if style = .web then
    let _ ← checkDomain name
  else
    checkOpaque name
  match rest with
  | ':' :: number => checkNumber 0 number
  | _ => return ()

/-! ### Files -/

/-- Checks what follows the scheme of files: only a host after two slashes can be wrong. -/
def checkFile : List Char → Except Fault Unit
  | a :: b :: rest =>
    if (a == '/' || a == '\\') && (b == '/' || b == '\\') then
      let host := rest.takeWhile (!endsAuthority .file ·)
      match host with
      | [] => .ok ()
      | [drive, c] =>
        if drive.isAlpha && (c == ':' || c == '|') then .ok ()
        else (checkDomain host).map fun _ => ()
      | host => (checkDomain host).map fun _ => ()
    else .ok ()
  | _ => .ok ()

/-- Checks whether a text is a locator. -/
def parse (text : String) : Except Fault Unit :=
  match scheme? (clean text.toList) with
  | none => .error .noScheme
  | some (scheme, rest) =>
    match styleOf scheme with
    | .file => checkFile rest
    | .web => checkAuthority .web (rest.dropWhile fun c => c == '/' || c == '\\')
    | .other =>
      match rest with
      | '/' :: '/' :: rest => checkAuthority .other rest
      | _ => .ok ()

end Flowgraph.Url

/-
  Fedservice.Py.Url

  `urllib.parse.urlparse`, as far as the code base looks at its result: all but
  the parameters of the last path segment.  Of the checks of the library the one for
  unbalanced brackets is here; the ones for the host inside brackets and for
  characters that normalise to delimiters are not.
-/

import Fedservice.Py.Exc

namespace Fedservice.Py

/-- The parts of a `ParseResult` that are used. -/
structure ParseResult where
  scheme : String
  netloc : String
  path : String
  query : String
  fragment : String

namespace Url

/-- The characters a scheme is made of. -/
def isSchemeChar (c : Char) : Bool := c.isAlphanum || c = '+' || c = '-' || c = '.'

/-- The scheme, in lower case, and what comes after the colon. -/
def splitScheme (url : List Char) : List Char × List Char :=
  match url.span (fun c => c ≠ ':') with
  | (c :: cs, _ :: rest) =>
      if c.isAlpha && (c :: cs).all isSchemeChar then ((c :: cs).map Char.toLower, rest)
      else ([], url)
  | _ => ([], url)

/-- The network location, which two slashes announce, and what comes after it. -/
def splitNetloc (url : List Char) : List Char × List Char :=
  match url with
  | '/' :: '/' :: rest => rest.span (fun c => !(c = '/' || c = '?' || c = '#'))
  | _ => ([], url)

/-- The schemes whose last path segment may have parameters. -/
def usesParams : List String :=
  ["", "ftp", "hdl", "prospero", "http", "https", "imap", "shttp", "rtsp", "rtsps", "rtspu", "sip",
    "sips", "mms", "sftp", "tel"]

/-- A path without the parameters of its last segment. -/
def dropParams (path : List Char) : List Char :=
  let lastSegment := (path.reverse.takeWhile (fun c => c ≠ '/')).reverse
  path.take (path.length - lastSegment.length) ++ lastSegment.takeWhile (fun c => c ≠ ';')

/-- What `urlsplit` removes before it looks at a URL. -/
def sanitize (url : List Char) : List Char :=
  (url.dropWhile (fun c => c.val ≤ 32)).filter (fun c => !(c = '\t' || c = '\n' || c = '\r'))

end Url

open Url in
/-- `urlparse`. -/
def urlparse (url : String) : Except Exc ParseResult :=
  let (schemeChars, rest) := splitScheme (sanitize url.toList)
  let scheme := String.ofList schemeChars
  let (netloc, rest) := splitNetloc rest
  if netloc.contains '[' != netloc.contains ']' then
    .error (.valueError [.lit "Invalid IPv6 URL"])
  else
    let (rest, fragment) := rest.span (fun c => c ≠ '#')
    let (path, query) := rest.span (fun c => c ≠ '?')
    .ok {
      scheme := scheme
      netloc := String.ofList netloc
      path := String.ofList (if scheme ∈ usesParams then dropParams path else path)
      query := String.ofList query.tail
      fragment := String.ofList fragment.tail }

/-- `result.hostname`: what comes after any user information, without the port, and in
    lower case up to a zone. -/
def ParseResult.hostname (result : ParseResult) : Option String :=
  let hostinfo := (result.netloc.toList.reverse.takeWhile (fun c => c ≠ '@')).reverse
  let host :=
    match hostinfo.dropWhile (fun c => c ≠ '[') with
    | _ :: bracketed => bracketed.takeWhile (fun c => c ≠ ']')
    | [] => hostinfo.takeWhile (fun c => c ≠ ':')
  let (name, zone) := host.span (fun c => c ≠ '%')
  if host.isEmpty then none else some (String.ofList (name.map Char.toLower ++ zone))

/-! ## urlencode -/

namespace Url

/-- The characters that `quote_plus` leaves as they are. -/
def isUnreserved (c : Char) : Bool := c.isAlphanum || c = '_' || c = '.' || c = '-' || c = '~'

/-- A hexadecimal digit. -/
def hexDigit (n : Nat) : Char := (Nat.digitChar n).toUpper

/-- `quote_plus`. -/
def quotePlus (s : String) : String :=
  String.ofList (s.toList.flatMap fun c =>
    if isUnreserved c then [c]
    else if c = ' ' then ['+']
    else (String.utf8EncodeChar c).flatMap fun b =>
      ['%', hexDigit (b.toNat / 16), hexDigit (b.toNat % 16)])

end Url

/-- `urlencode`. -/
def urlencode (qpart : List (String × String)) : String :=
  "&".intercalate (qpart.map fun arg => Url.quotePlus arg.1 ++ "=" ++ Url.quotePlus arg.2)

end Fedservice.Py

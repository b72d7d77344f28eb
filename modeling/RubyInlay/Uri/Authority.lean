import RubyInlay.Text.CharSet
import RubyInlay.Text.Quoted
import RubyInlay.Uri.Address

/-! What is refused in the authority of a URI: square brackets that do not hold an address, and
characters that a host name would turn into marks of the URI. -/

namespace RubyInlay

/-- Why a URI cannot be taken apart. -/
inductive UriError where
  /-- The authority has a square bracket of one kind only. -/
  | unpairedBracket
  /-- Something other than a port stands beside an address in brackets. -/
  | textBesideBrackets
  | malformedFutureAddress
  /-- An address of version 4 needs no brackets. -/
  | bracketedVersion4
  | notAnAddress (host : String)
  /-- The authority holds a character of which a mark is a compatibility form. -/
  | disguisedMark (authority : String)
  deriving DecidableEq, Repr

def UriError.message : UriError → String
  | unpairedBracket => "Invalid IPv6 URL"
  | textBesideBrackets => "Invalid IPv6 URL"
  | malformedFutureAddress => "IPvFuture address is invalid"
  | bracketedVersion4 => "An IPv4 address cannot be in brackets"
  | notAnAddress host => Text.quoted host ++ " does not appear to be an IPv4 or IPv6 address"
  | disguisedMark authority =>
    "netloc '" ++ authority ++ "' contains invalid characters under NFKC normalization"

namespace Uri.Authority

open Text (afterLast cutAt)

/-- A host in brackets is an address of version 6 or later. -/
def hostError? (host : List Char) : Option UriError :=
  if host.head? == some 'v' then
    if Address.isFuture host then none else some .malformedFutureAddress
  else if Address.isVersion4 host then some .bracketedVersion4
  else if Address.isVersion6 host then none
  else some (.notAnAddress (String.ofList host))

/-- Where both brackets occur, the host behind the user has to be an address. The brackets hold all
of it but a port. -/
def bracketError? (authority : List Char) : Option UriError :=
  if authority.contains '[' && authority.contains ']' then
    let host := afterLast '@' authority
    if host.contains '[' then
      let (before, inside) := cutAt '[' host
      let (address, rest) := cutAt ']' inside
      if before != [] || rest != [] && rest.head? != some ':' then some .textBesideBrackets
      else hostError? address
    else hostError? (cutAt ':' host).1
  else if authority.contains '[' || authority.contains ']' then some .unpairedBracket
  else none

/-- The characters whose compatibility form has a slash, a question mark, a number sign, an at sign
or a colon in it. -/
def disguisedMarks : Text.CharSet :=
  [⟨0x2047, 0x2049, 1⟩, ⟨0x2100, 0x2101, 1⟩, ⟨0x2105, 0x2106, 1⟩, ⟨0x2A74, 0x2A74, 1⟩,
   ⟨0xFE13, 0xFE16, 3⟩, ⟨0xFE55, 0xFE56, 1⟩, ⟨0xFE5F, 0xFE5F, 1⟩, ⟨0xFE6B, 0xFE6B, 1⟩,
   ⟨0xFF03, 0xFF03, 1⟩, ⟨0xFF0F, 0xFF0F, 1⟩, ⟨0xFF1A, 0xFF1F, 5⟩, ⟨0xFF20, 0xFF20, 1⟩]

def markError? (authority : List Char) : Option UriError :=
  if authority.any disguisedMarks.contains then some (.disguisedMark (String.ofList authority))
  else none

/-- The first fault of an authority. -/
def error? (authority : List Char) : Option UriError :=
  (bracketError? authority).or (markError? authority)

@[simp] theorem error?_nil : error? [] = none := rfl

end Uri.Authority

end RubyInlay

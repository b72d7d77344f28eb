import RubyInlay.Text.Utf8
import RubyInlay.Uri.Authority

/-! The file that a URI names. A URI is cut into scheme, authority and path by its marks; escapes are
resolved afterwards, so an escaped mark cuts nothing. -/

namespace RubyInlay

/-- The parts of a URI that decide which file it names. -/
structure Uri where
  scheme : List Char
  authority : List Char
  path : List Char
  deriving DecidableEq, Repr

namespace Uri

open Text (afterLast hexDigit? upToLast)

/-! ### Cutting -/

/-- Drops control characters and blanks before a URI, and tabs and line ends within it. -/
def clean (text : List Char) : List Char :=
  (text.dropWhile fun c => c.toNat ≤ 0x20).filter fun c => c != '\t' && c != '\n' && c != '\r'

def isSchemeChar (c : Char) : Bool :=
  c.isAlphanum || c == '+' || c == '.' || c == '-'

/-- A word up to the first colon is a scheme if it begins with a letter and has no odd characters.
Case does not matter in it. -/
def cutScheme (text : List Char) : List Char × List Char :=
  match text.takeWhile (· != ':'), text.dropWhile (· != ':') with
  | c :: word, _ :: rest =>
    if c.isAlpha && word.all isSchemeChar then ((c :: word).map Char.toLower, rest) else ([], text)
  | _, _ => ([], text)

def endsAuthority (c : Char) : Bool :=
  c == '/' || c == '?' || c == '#'

/-- The authority stands behind two slashes. -/
def cutAuthority : List Char → List Char × List Char
  | '/' :: '/' :: rest =>
    (rest.takeWhile (!endsAuthority ·), rest.dropWhile (!endsAuthority ·))
  | text => ([], text)

/-- Without the fragment and the query. -/
def dropQuery (text : List Char) : List Char :=
  (text.takeWhile (· != '#')).takeWhile (· != '?')

/-- The schemes whose last segment can end in parameters. -/
def schemesWithParameters : List String :=
  ["", "ftp", "hdl", "prospero", "http", "imap", "https", "shttp", "rtsp", "rtspu", "sip", "sips",
   "mms", "sftp", "tel"]

/-- Without the parameters of the last segment. -/
def dropParameters (scheme path : List Char) : List Char :=
  if String.ofList scheme ∈ schemesWithParameters then
    upToLast '/' path ++ (afterLast '/' path).takeWhile (· != ';')
  else path

/-! ### Escapes -/

/-- The bytes of a text in which `%` and two digits stand for a byte. A sign without its digits
stands for itself. -/
def bytes : List Char → List UInt8
  | '%' :: high :: low :: rest =>
    match hexDigit? high, hexDigit? low with
    | some h, some l => UInt8.ofNat (16 * h + l) :: bytes rest
    | _, _ => String.utf8EncodeChar '%' ++ bytes (high :: low :: rest)
  | c :: rest => String.utf8EncodeChar c ++ bytes rest
  | [] => []

def resolve (text : List Char) : List Char :=
  Text.Utf8.decode (bytes text)

/-! ### The file -/

def ofText (text : List Char) : Except UriError Uri :=
  let (scheme, rest) := cutScheme (clean text)
  let (authority, rest) := cutAuthority rest
  match Authority.error? authority with
  | some e => .error e
  | none =>
    .ok ⟨resolve scheme, resolve authority, resolve (dropParameters scheme (dropQuery rest))⟩

/-- A path that begins with a drive: without its slash, and with the letter in lower case. -/
def withoutDriveSlash : List Char → List Char
  | '/' :: c :: ':' :: rest =>
    if c.isAlpha then c.toLower :: ':' :: rest else '/' :: c :: ':' :: rest
  | path => path

/-- The path in the file system. A file on another machine keeps the machine's name in front. -/
def filePath (u : Uri) : List Char :=
  if u.authority ≠ [] ∧ u.path ≠ [] ∧ u.scheme = "file".toList then
    '/' :: '/' :: u.authority ++ u.path
  else withoutDriveSlash u.path

end Uri

/-! ### Ruby files -/

def rubyFileNames : List String := ["Gemfile", "Rakefile"]

def rubyExtensions : List String := [".rb", ".rake", ".gemspec", ".ru"]

/-- Whether a file of this name holds Ruby. -/
def isRubyFileName (name : List Char) : Bool :=
  rubyFileNames.any (·.toList == name) || rubyExtensions.any (·.toList.isSuffixOf name)

/-- Whether a URI names a Ruby file. -/
def namesRubyFile (uri : String) : Except UriError Bool :=
  (Uri.ofText uri.toList).map fun u => isRubyFileName (Text.afterLast '/' u.filePath)

end RubyInlay

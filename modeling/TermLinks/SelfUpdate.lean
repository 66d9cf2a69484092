import TermLinks.GoError
import TermLinks.ReleaseVersion
import TermLinks.Runes

namespace TermLinks.SelfUpdate

def latestReleaseURL : String := "https://api.github.com/repos/Ratul1997/termlinks/releases/latest"
def maxReleaseBytes : Nat := 2 ^ 20
def maxChecksumBytes : Nat := 2 ^ 20

structure Options where
  currentVersion : String
  executablePath : String
  goos : String
  goarch : String
  apiURL : String

structure Result where
  fromVersion : String
  toVersion : String
  assetName : String
  updated : Bool
deriving DecidableEq

structure Asset where
  name : String
  url : String

structure Release where
  tagName : String
  assets : List Asset

/-- A parsed URL: what is checked of it, and its text. -/
structure URL where
  scheme : String
  hostname : String
  user : Bool
  text : String

/-- A reply: the bytes of its body that arrive, and the error that ends them, if any. -/
structure Response where
  statusCode : Nat
  status : String
  contentLength : Int
  body : Bytes
  bodyError : Option String

/-- What happens to a request: it is sent on to other URLs, and then fails or is answered. -/
structure Exchange where
  redirects : List URL
  response : Except String Response

/-- What reading an archive gives, entry by entry; the content of an entry may end in an error as well. -/
inductive Listing
  | eof
  | failed (error : String)
  | entry (name : Bytes) (typeflag : UInt8) (content : Bytes) (readError : Option String) (rest : Listing)

inductive Fetch
  | release | checksums | archive
deriving DecidableEq

/-- What the update takes from the system, the packages it uses and the network. -/
structure Environment where
  executable : Except String String
  getwd : Except String String
  goos : String
  goarch : String
  quote : Bytes → String
  parseURL : String → Except String URL
  newRequest : URL → Option String
  transportError : URL → String → String
  exchange : Fetch → Exchange
  unmarshal : Bytes → Except String Release
  sha256 : Bytes → Bytes
  unpack : Bytes → Except String Listing
  /-- What a program prints when it is asked for its version. -/
  version : Bytes → Except String Bytes

variable (env : Environment)

def validateDownloadURL (value : URL) (apiHost : String) : Except String Unit :=
  if value.scheme ≠ "https" ∨ value.hostname = "" ∨ value.user = true then
    .error "download URL must use HTTPS without credentials"
  else
    let host := toLower value.hostname
    if host = apiHost ∨ host = "api.github.com" ∨ host = "github.com" ∨
        host = "objects.githubusercontent.com" ∨ host = "release-assets.githubusercontent.com" ∨
        GoNet.hasSuffix host ".githubusercontent.com" = true then .ok ()
    else .error ("refusing untrusted download host " ++ env.quote (utf8 host))

/-- The lower-case host of the API, once its URL has been found fit. -/
def secureClient (apiURL : String) : Except String String :=
  let refused := .error "release API must use an HTTPS URL without credentials"
  match env.parseURL apiURL with
  | .error _ => refused
  | .ok parsed =>
    if parsed.scheme ≠ "https" ∨ parsed.hostname = "" ∨ parsed.user = true then refused
    else .ok (toLower parsed.hostname)

/-- `CheckRedirect` along the requests that an exchange leads to; `via` have been made. -/
def checkRedirects (apiHost : String) : Nat → List URL → Except String Unit
  | _, [] => .ok ()
  | via, url :: rest =>
    if via ≥ 10 then .error "too many redirects"
    else do
      validateDownloadURL env url apiHost
      checkRedirects apiHost (via + 1) rest

def newRequest (rawURL apiHost : String) : Except String URL := do
  let parsed ← env.parseURL rawURL
  validateDownloadURL env parsed apiHost
  match env.newRequest parsed with
  | some e => .error e
  | none => .ok parsed

def clientDo (fetch : Fetch) (url : URL) (apiHost : String) : Except String Response :=
  match checkRedirects env apiHost 1 (env.exchange fetch).redirects, (env.exchange fetch).response with
  | .ok _, .ok response => .ok response
  | .error e, _ | .ok _, .error e => .error (env.transportError url e)

/-- A request whose reply is of the right kind, and not said to be too large. -/
def requested (fetch : Fetch) (rawURL apiHost : String) (limit : Nat) (tooLarge : String) :
    Except String Response := do
  let request ← newRequest env rawURL apiHost
  let response ← clientDo env fetch request apiHost
  if response.statusCode ≠ 200 then .error ("unexpected HTTP status " ++ response.status)
  else if response.contentLength > limit then .error tooLarge
  else .ok response

/-- What a reader that stops behind the limit gives of some bytes, which may end in an error. -/
def limited (data : Bytes) (error : Option String) (limit : Nat) : Bytes × Option String :=
  (data.take (limit + 1), if data.length ≤ limit then error else none)

def getBytes (fetch : Fetch) (rawURL apiHost : String) (limit : Nat) : Except String Bytes := do
  let response ← requested env fetch rawURL apiHost limit "response is too large"
  match limited response.body response.bodyError limit with
  | (_, some e) => .error e
  | (data, none) => if data.length > limit then .error "response is too large" else .ok data

def getJSON (rawURL apiHost : String) (limit : Nat) : Except String Release := do
  let data ← getBytes env .release rawURL apiHost limit
  wrap "decode response: " (env.unmarshal data)

def findAsset (assets : List Asset) (name : String) : Option Asset :=
  assets.find? fun asset => asset.name = name

def hexDigit (b : UInt8) : Option Nat :=
  if '0'.toNat ≤ b.toNat ∧ b.toNat ≤ '9'.toNat then some (b.toNat - '0'.toNat)
  else if 'a'.toNat ≤ b.toNat ∧ b.toNat ≤ 'f'.toNat then some (b.toNat - 'a'.toNat + 10)
  else if 'A'.toNat ≤ b.toNat ∧ b.toNat ≤ 'F'.toNat then some (b.toNat - 'A'.toNat + 10)
  else none

/-- `hex.DecodeString`. -/
def hexDecode : Bytes → Option Bytes
  | [] => some []
  | [_] => none
  | high :: low :: rest => do
    let value := (← hexDigit high) * 16 + (← hexDigit low)
    some (UInt8.ofNat value :: (← hexDecode rest))

/-- The sum of a line that names the file. -/
def lineSum (filename : String) (line : Bytes) : Option Bytes :=
  match Runes.fields line with
  | [sum, name] =>
    let name := match name with
      | b :: rest => if b = 0x2a then rest else name
      | [] => name
    if name = utf8 filename then some sum else none
  | _ => none

def checksumIn (filename : String) : List Bytes → Except String Bytes
  | [] => .error ("checksums.txt has no SHA-256 entry for " ++ filename)
  | line :: rest =>
    match lineSum filename line with
    | none => checksumIn filename rest
    | some sum =>
      match hexDecode sum with
      | none => .error ("invalid SHA-256 entry for " ++ filename)
      | some checksum =>
        if checksum.length ≠ 32 then .error ("invalid SHA-256 entry for " ++ filename) else .ok checksum

def checksumFor (contents : Bytes) (filename : String) : Except String Bytes :=
  checksumIn filename (contents.splitOn 10)

/-- What is known of a newer release before anything of it is written. -/
structure Plan where
  executablePath : String
  apiHost : String
  current : SemanticVersion
  latest : SemanticVersion
  assetName : String
  archiveURL : String
  expectedChecksum : Bytes

def executableOf (options : Options) : Except String String :=
  if options.executablePath = "" then wrap "locate executable: " env.executable else .ok options.executablePath

def assetNameOf (latest : SemanticVersion) (goos goarch : String) : String :=
  "termlinks_" ++ latest.toText ++ "_" ++ goos ++ "_" ++ goarch ++ ".tar.gz"

/-- The first half of `Update`: nothing is to be done, or there is a plan for the other half. -/
def checkLatest (options : Options) : Except String (Result ⊕ Plan) := do
  if options.currentVersion = "" then .error "current version is required"
  let current ← wrap "current version: " (parseVersion env.quote options.currentVersion)
  let executablePath ← executableOf env options
  let goos := if options.goos = "" then env.goos else options.goos
  let goarch := if options.goarch = "" then env.goarch else options.goarch
  let apiURL := if options.apiURL = "" then latestReleaseURL else options.apiURL
  let apiHost ← secureClient env apiURL
  let release ← wrap "check latest release: " (getJSON env apiURL apiHost maxReleaseBytes)
  let latest ← wrap "latest release tag: " (parseVersion env.quote release.tagName)
  if current.compare latest ≥ 0 then .ok (.inl ⟨current.toText, latest.toText, "", false⟩)
  else
    let assetName := assetNameOf latest goos goarch
    match findAsset release.assets assetName with
    | none => .error ("release " ++ latest.toText ++ " has no build for " ++ goos ++ "/" ++ goarch)
    | some archive =>
      match findAsset release.assets "checksums.txt" with
      | none => .error ("release " ++ latest.toText ++ " has no checksums.txt")
      | some checksumsAsset => do
        let checksums ← wrap "download checksums: "
          (getBytes env .checksums checksumsAsset.url apiHost maxChecksumBytes)
        let expected ← checksumFor checksums assetName
        .ok (.inr ⟨executablePath, apiHost, current, latest, assetName, archive.url, expected⟩)

end TermLinks.SelfUpdate

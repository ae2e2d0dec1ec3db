import MeridianOci.Model.Client
import MeridianOci.Model.Config

/-!
# URLs and headers

`transport/client.py`: `_url`, `_repository`, `_blob_url`, `_manifest_url` and the paths that the
other methods write, and the headers of a request. A digest, a reference and the name of the
repository are percent-encoded. What `httpx` makes of query parameters is a parameter.
-/
namespace MeridianOci.Model

open MeridianOci.Data

set_option autoImplicit false

/-- A resource of the repository. -/
inductive Route where
  | base
  | uploads
  | blob (digest : String)
  | manifest (reference : String)
  | tags
  | referrers (subjectDigest : String)
  deriving DecidableEq

/-- The path of a resource below the name of the repository. -/
def Route.suffix : Route → List Char
  | .base => []
  | .uploads => "/blobs/uploads/".toList
  | .blob digest => "/blobs/".toList ++ Url.quote [':'] digest.toList
  | .manifest reference => "/manifests/".toList ++ Url.quote [':', '.', '_', '-'] reference.toList
  | .tags => "/tags/list".toList
  | .referrers subjectDigest => "/referrers/".toList ++ Url.quote [':'] subjectDigest.toList

namespace BoundConfig

variable {rules : ConfigRules} (config : BoundConfig rules)

/-- `_url`. -/
def url (path : List Char) : List Char := config.binding.endpoint.toList ++ path

/-- `_repository`. -/
def repositoryPath : List Char := Url.quote ['/'] config.repository.toList

def routePath : Route → List Char
  | .base => "/v2/".toList
  | route => "/v2/".toList ++ config.repositoryPath ++ route.suffix

def routeUrl (route : Route) : List Char := config.url (config.routePath route)

/-- `_blob_url`. -/
def blobUrl (digest : String) : List Char := config.routeUrl (.blob digest)

/-- `_manifest_url`. -/
def manifestUrl (reference : String) : List Char := config.routeUrl (.manifest reference)

/-- Where a request is sent. The URL of an upload is the registry's own; `withParams` is `httpx`. -/
def targetUrl (P : Platform) (withParams : String → List (String × String) → String) : Target → String
  | .base => String.ofList (config.routeUrl .base)
  | .uploads => String.ofList (config.routeUrl .uploads)
  | .upload url none => url
  | .upload url (some digest) => (P.mergeDigest url digest).getD url
  | .blob digest => String.ofList (config.blobUrl digest)
  | .manifest reference => String.ofList (config.manifestUrl reference)
  | .tags limit last => withParams (String.ofList (config.routeUrl .tags))
      (("n", toString limit) :: (last.map fun last => ("last", last)).toList)
  | .referrers subjectDigest artifactType =>
    withParams (String.ofList (config.routeUrl (.referrers subjectDigest))) [("artifactType", artifactType)]

/-- `result[name] = value`. -/
def setHeader (fields : Headers) (entry : String × String) : Headers :=
  if fields.any (·.1 = entry.1) then fields.map fun field => if field.1 = entry.1 then entry else field
  else fields ++ [entry]

/-- The headers of every request, with its credentials. -/
def commonHeaders (authorization : Option String) : Headers :=
  (authorization.map fun value => ("Authorization", value)).toList.foldl setHeader
    [("User-Agent", "meridian-storage-oci/1.0.0"), ("Accept", "application/json")]

/-- `_headers`; `resolved` is what a callback returns. The credentials are asked on the bound origin only. -/
def headers (P : Platform) (resolved : Except Err Json) (url : String) (additional : Headers) : Except Err Headers := do
  let requested ← origin P url
  let bound ← origin P config.binding.endpoint
  let authorization ← (if requested = bound then config.credentials.authorizationHeader resolved else .ok none :
    Except Err (Option String))
  return additional.foldl setHeader (commonHeaders authorization)

end BoundConfig

/-- The attributes of a URL that the client reads. -/
def splitUrlOf (rules : Url.Rules) (parsed : Url.SplitResult) : SplitUrl where
  scheme := String.ofList parsed.scheme
  hostname := (Url.hostname rules parsed.netloc).map String.ofList
  username := (Url.username parsed.netloc).map String.ofList
  port := Url.port parsed.netloc

end MeridianOci.Model

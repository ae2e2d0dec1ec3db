import MeridianOci.Service.Composed

/-!
# The methods of the registry client

Each public method of the client as a call, whatever it returns, and a rule for the
requests that all of them make: a request is sent as it is, again and again, until an
answer ends the loop.
-/
namespace MeridianOci.Service

open MeridianOci.Data MeridianOci.Effect MeridianOci.Model

set_option autoImplicit false

inductive ClientCall (P : Platform) where
  | ping
  | headBlob (digest : String)
  | startUpload
  | patchUpload (upload : UploadLocation) (chunk : Bytes)
  | finishUpload (upload : UploadLocation) (digest : String)
  | abortUpload (upload : UploadLocation)
  | uploadStatus (upload : UploadLocation)
  | uploadBlobBytes (value : Bytes) (mediaType : String)
  | getBlobBytes (descriptor : OciDescriptor P) (maximumBytes : Nat)
  | openBlob (source : RegistryBlobSource)
  | getManifest (reference : String)
  | manifestExists (reference : String)
  | putManifest (reference : String) (body : Bytes)
  | deleteManifest (digest : String)
  | listTags (limit : Nat) (last : Option String)
  | getReferrers (subjectDigest artifactType : String)

inductive ClientAnswer (P : Platform) where
  | version (version : String)
  | existing (descriptor : Option (OciDescriptor P))
  | upload (upload : UploadLocation)
  | descriptor (descriptor : OciDescriptor P)
  | done
  | content (content : Bytes)
  | stream (stream : Model.Stream)
  | manifest (document : ManifestDocument P)
  | flag (value : Bool)
  | tags (page : TagPage)
  | referrers (descriptors : List (OciDescriptor P))

namespace ClientCall

variable {P : Platform}

/-- The public methods of the client. -/
def program (client : RegistryHttpClient) : ClientCall P → Action (ClientAnswer P)
  | ping => do return .version (← client.ping P)
  | headBlob digest => do return .existing (← client.headBlob P digest)
  | startUpload => do return .upload (← client.startUpload P)
  | patchUpload upload chunk => do return .upload (← client.patchUpload P upload chunk)
  | finishUpload upload digest => do return .descriptor (← client.finishUpload P upload digest)
  | abortUpload upload => do
    client.abortUpload P upload
    return .done
  | uploadStatus upload => do return .upload (← client.uploadStatus P upload)
  | uploadBlobBytes value mediaType => do return .descriptor (← client.uploadBlobBytes P value mediaType)
  | getBlobBytes descriptor maximumBytes => do return .content (← client.getBlobBytes P descriptor maximumBytes)
  | openBlob source => do return .stream (← client.openBlob P source)
  | getManifest reference => do return .manifest (← client.getManifest P reference)
  | manifestExists reference => do return .flag (← client.manifestExists P reference)
  | putManifest reference body => do return .descriptor (← client.putManifest P reference body)
  | deleteManifest digest => do return .flag (← client.deleteManifest P digest)
  | listTags limit last => do return .tags (← client.listTags P limit last)
  | getReferrers subjectDigest artifactType => do
    return .referrers (← client.getReferrers P subjectDigest artifactType)

/-- The upload a call is given. -/
def upload? : ClientCall P → Option UploadLocation
  | patchUpload upload _ | finishUpload upload _ | abortUpload upload | uploadStatus upload => some upload
  | _ => none

end ClientCall

end MeridianOci.Service

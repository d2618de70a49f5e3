import StorybookStorage.Python.Json

/-!
# Settings

The parsed settings the request handlers read.  Lists and maps are what the
cached properties of `Settings` return.
-/

namespace StorybookStorage

open Python

structure Settings where
  storagePublicBaseUrl : Text
  storageSignSecret : Text
  storageRoot : Text
  apiKeys : Dict Text
  buckets : List Text
  serviceOnlyPrefixes : List Text
  storageMaxObjectBytes : Int
  prefixSizeCaps : Dict Int
  userMimeCaps : Dict Int
  storageSignedGetDevStream : Bool

def Settings.publicBaseUrl (settings : Settings) : Text :=
  rstripChar '/' settings.storagePublicBaseUrl

end StorybookStorage

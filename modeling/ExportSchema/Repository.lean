import ExportSchema.Path
import ExportSchema.Url

/-!
# Files of hosted repositories

A file of a repository on GitHub has a page URL `https://github.com/<owner>/<repo>/blob/<ref>/<path>`.
Its content is found at a raw URL on another host, or by owner, repository, reference and path.
-/

namespace ExportSchema.Repository

/-- Is this the URL of something on GitHub? -/
def isHosted (path : Text) : Bool := Text.startsWith "https://github.com/".toList path

/-- The host of raw files. -/
def rawHost : Text := "raw.githubusercontent.com".toList

/-- The URL of the raw file behind a page URL. -/
def rawUrl (url : Text) : Except UrlError Text := do
  let u ← Url.split url
  let path := Text.replaceFirst "/blob/".toList ['/'] u.path
  return Url.text ⟨u.scheme, rawHost, path, u.query, []⟩

/-- A file of a repository. -/
structure FileRef where
  owner : Text
  repo : Text
  ref : Text
  path : Text
  deriving DecidableEq, Repr

/-- The name of a file: repository, reference and path. -/
def FileRef.name (f : FileRef) : Text :=
  f.owner ++ '/' :: f.repo ++ '@' :: f.ref ++ ':' :: f.path

/-- Why a URL names no file of a repository. -/
inductive RefError where
  | badUrl (cause : UrlError)
  | noFile (url : Text)
  deriving DecidableEq, Repr

/-- What is said of such a URL. -/
def RefError.message : RefError → Text
  | badUrl cause => cause.message
  | noFile url => "Not a GitHub file URL: ".toList ++ url

/-- The file of a page URL. Repeated slashes count as one. -/
def FileRef.ofUrl (url : Text) : Except RefError FileRef :=
  match Url.split url with
  | .error cause => .error (.badUrl cause)
  | .ok u =>
    match (Text.splitOn '/' u.path).filter (!·.isEmpty) with
    | owner :: repo :: mark :: ref :: first :: more =>
      if mark = "blob".toList then .ok ⟨owner, repo, ref, Text.join ['/'] (first :: more)⟩
      else .error (.noFile url)
    | _ => .error (.noFile url)

/-- The name of the file that a module path names: the last component of a page URL, or the path
itself. -/
def moduleFileName (path : Text) : Except UrlError Text :=
  if isHosted path then (Url.split path).map fun u => Path.fileName u.path else .ok path

end ExportSchema.Repository

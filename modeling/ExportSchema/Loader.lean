import ExportSchema.Encoding.Legacy
import ExportSchema.Host
import ExportSchema.Json.Display
import ExportSchema.Seconds

/-!
# Loading files

A path is loaded in one of three ways: a local file from disk, a hosted file from its raw URL, or,
with a token, a hosted file from the repository service.

* `Loader.select`: the way for a target.
* `Loader.prepare`: what has to be done before the first file.
* `Loader.load`: the content of a path, or what went wrong.
-/

namespace ExportSchema

/-- The result of loading a file. -/
inductive Loaded where
  | content (text : Text)
  | failed (message : Text)
  deriving DecidableEq, Repr

/-- A path that cannot be asked for at all, or bytes whose encoding cannot be asked for. -/
inductive LoadFault where
  | nullByte
  | url (cause : UrlError)
  | encoding (cause : NameError)
  deriving DecidableEq, Repr

/-- What is said of such a path or encoding. -/
def LoadFault.message : LoadFault → Text
  | nullByte => "embedded null byte".toList
  | url cause => cause.message
  | encoding cause => cause.message

/-- A way to load files. -/
inductive Loader where
  | disk
  | raw (timeout : Seconds)
  | service (token : Text) (timeout : Seconds)
  deriving DecidableEq, Repr

namespace Loader

/-- The way to load a target: hosted files go through the service when there is a token. -/
def select (target : Text) (token : Option Text) (timeout : Seconds) : Loader :=
  if Repository.isHosted target then
    match token with
    | none | some [] => raw timeout
    | some token => service token timeout
  else disk

variable {m : Type → Type} [Monad m]

/-- Make ready to load: the service has to be opened, with a time in whole seconds. -/
def prepare (host : Host m) : Loader → m (Except TimeoutFault Unit)
  | service token timeout =>
    match timeout.whole with
    | .error fault => return .error fault
    | .ok seconds => do
      host.openService token seconds
      return .ok ()
  | disk | raw _ => return .ok ()

/-- The text of bytes; the host is asked for their encoding when they are not UTF-8. -/
def decode (host : Host m) (bytes : Bytes) : m (Except LoadFault Text) :=
  match Utf8.strict? bytes with
  | some text => return .ok text
  | none => return (decodeBytes (← host.detectEncoding bytes) bytes).mapError .encoding

/-- Load a local file. -/
def loadFile (host : Host m) (path : Text) : m (Except LoadFault Loaded) := do
  match ← host.readFile path with
  | .ok bytes => return (← decode host bytes).map .content
  | .error e =>
    match e.system? with
    | none => return .error .nullByte
    | some (number, text) =>
      return .ok (.failed ("[Errno ".toList ++ Text.ofNat number ++ "] ".toList ++ text ++
        ": ".toList ++ Text.quoted path))

/-- Load a hosted file from its raw URL. -/
def loadRaw (host : Host m) (timeout : Seconds) (url : Text) : m (Except LoadFault Loaded) := do
  match Repository.rawUrl url with
  | .error cause => return .error (.url cause)
  | .ok rawUrl =>
    match ← host.getPage rawUrl timeout.toBinary64 with
    | .content text => return .ok (.content text)
    | .refused reason => return .ok (.failed ("Failed to fetch: ".toList ++ reason))
    | .failed message => return .ok (.failed message)

/-- What the data of a refusal say: the message of an object, or the data themselves. -/
def refusal (data : Json) : Text :=
  match data with
  | .obj fields => ((Fields.get? fields "message".toList).getD .null).display
  | data => data.display

/-- Load a hosted file from the repository service. -/
def loadContents (host : Host m) (url : Text) : m (Except LoadFault Loaded) := do
  match Repository.FileRef.ofUrl url with
  | .error cause => return .ok (.failed cause.message)
  | .ok ref =>
    match ← host.getContents ref with
    | .file bytes => return (← decode host bytes).map .content
    | .directory => return .ok (.failed (ref.path ++ " is a directory".toList))
    | .refused status data =>
      return .ok (.failed ("GitHub API error ".toList ++ Text.ofInt status ++ ": ".toList ++
        refusal data))

/-- Load a path. -/
def load (host : Host m) : Loader → Text → m (Except LoadFault Loaded)
  | disk, path => loadFile host path
  | raw timeout, url => loadRaw host timeout url
  | service _ _, url => loadContents host url

end Loader

end ExportSchema

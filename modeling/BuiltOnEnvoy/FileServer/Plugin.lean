import BuiltOnEnvoy.Foundations.FileSystem
import BuiltOnEnvoy.Foundations.TextParsing

/-!
# The file server filter

`OnRequestHeaders` of the file server with its configuration. The JSON decoder
is a parameter. The file system does not change while a request is handled; a
call on it may fail for reasons that the tree does not show, with any error.
-/

namespace BuiltOnEnvoy.FileServer

open Foundations

structure PathMapping where
  requestPathPrefix : String
  filePathPrefix : String
  deriving DecidableEq

structure FileServerConfig where
  pathMappings : List PathMapping := []
  contentTypes : List (String × String) := []
  defaultContentType : String := ""
  directoryIndexFiles : List String := []

/-- The loop over the mappings, with the prefixes that were seen. -/
def validateMappings : List String → List PathMapping → Option String
  | _, [] => none
  | seen, m :: rest =>
    if m.requestPathPrefix = "" then some "request_path_prefix must not be empty"
    else if m.filePathPrefix = "" then some "file_path_prefix must not be empty"
    else if m.requestPathPrefix ∈ seen then
      some ("duplicate request_path_prefix: " ++ m.requestPathPrefix)
    else validateMappings (m.requestPathPrefix :: seen) rest

/-- The first problem of a configuration. -/
def FileServerConfig.validate (c : FileServerConfig) : Option String :=
  if c.pathMappings = [] then some "at least one path_mapping is required"
  else
    match validateMappings [] c.pathMappings with
    | some problem => some problem
    | none =>
      match c.contentTypes.find? fun t => '.' ∈ t.1.toList with
      | some t => some ("content_types suffix may not contain a period: " ++ t.1)
      | none =>
        match c.directoryIndexFiles.find? fun f => '/' ∈ f.toList with
        | some f => some ("directory_index_files entry may not contain a slash: " ++ f)
        | none => none

/-- Without a configuration the filter has no mappings. -/
def parseConfig (unmarshal : List UInt8 → Except String FileServerConfig) (config : List UInt8) :
    Except String FileServerConfig :=
  if config = [] then .ok {}
  else
    match unmarshal config with
    | .error err => .error ("failed to parse config: " ++ err)
    | .ok cfg =>
      match cfg.validate with
      | some problem => .error ("invalid config: " ++ problem)
      | none => .ok cfg

/-- The mapping applies to a request path. -/
def PathMapping.appliesTo (m : PathMapping) (requestPath : List Char) : Bool :=
  m.requestPathPrefix.toList.isPrefixOf requestPath

/-- One step of the loop in `findLongestMatchingMapping`. -/
def better (requestPath : List Char) (best : Option PathMapping) (m : PathMapping) :
    Option PathMapping :=
  if m.appliesTo requestPath then
    match best with
    | none => some m
    | some b => if b.requestPathPrefix.length < m.requestPathPrefix.length then some m else some b
  else best

def FileServerConfig.findLongestMatchingMapping (c : FileServerConfig) (requestPath : List Char) :
    Option PathMapping :=
  c.pathMappings.foldl (better requestPath) none

/-- `strings.TrimPrefix`. -/
def trimPrefix (start text : List Char) : List Char :=
  if start.isPrefixOf text then text.drop start.length else text

def applyPathMapping (requestPath : List Char) (mapping : PathMapping) : Option UnixPath :=
  let pathOnly := requestPath.takeWhile (· ≠ '?')
  let requestPathPrefix := mapping.requestPathPrefix.toList
  let remaining := trimPrefix requestPathPrefix pathOnly
  if remaining.head? = some '/' ∧ requestPathPrefix.getLast? = some '/' then none
  else
    let remaining := if remaining.head? = some '/' then remaining.tail else remaining
    if remaining.head? = some '/' then none
    else if remaining ≠ [] ∧
        (remaining.splitOn '/').any fun part => part = ['.', '.'] ∨ part = ['.'] ∨ part = [] then
      none
    else some (UnixPath.join mapping.filePathPrefix (String.ofList remaining))

inductive OsError
  | notExist
  | permission
  | other
  deriving DecidableEq

structure FileInfo where
  isDir : Bool
  size : ℕ

/-- The tree, which calls on it fail in spite of it, and the errors of calls
that fail. -/
structure Os where
  fs : FileSystem
  statFault : UnixPath → Bool
  readFault : UnixPath → Bool
  error : UnixPath → OsError

def Os.node (os : Os) (p : UnixPath) : Option Node :=
  (os.fs.lookup true p).bind fun r => os.fs.node r.1

def Os.stat (os : Os) (p : UnixPath) : Except OsError FileInfo :=
  if os.statFault p then .error (os.error p)
  else
    match os.node p with
    | none => .error (os.error p)
    | some (.file content) => .ok ⟨false, content.length⟩
    | some .dir => .ok ⟨true, 0⟩
    | some (.link _) => .error (os.error p)

def Os.readFile (os : Os) (p : UnixPath) : Except OsError (List UInt8) :=
  match os.readFault p, os.node p with
  | false, some (.file content) => .ok content
  | _, _ => .error (os.error p)

def readFileRange (os : Os) (p : UnixPath) (offset length : ℕ) : Except OsError (List UInt8) :=
  (os.readFile p).map fun content => (content.drop offset).take length

inductive Reply
  /-- The request goes on to the next filter. -/
  | continue
  | localResponse (status : ℕ) (headers : List (String × String)) (body details : String)
  | response (headers : List (String × String)) (body : List UInt8)

def plain : List (String × String) := [("content-type", "text/plain")]

structure Request where
  path : List Char
  method : String
  range : List Char

/-- The file path of a request, or the reply that ends it. -/
def mapRequest (c : FileServerConfig) (request : Request) : Except Reply UnixPath :=
  if request.path = [] then .error .continue
  else
    match pathUnescape request.path with
    | none => .error .continue
    | some decodedPath =>
      match c.findLongestMatchingMapping decodedPath with
      | none => .error .continue
      | some mapping =>
        if request.method ≠ "GET" ∧ request.method ≠ "HEAD" then
          .error (.localResponse 405 plain "Method Not Allowed" "file_server_rejected_method")
        else
          match applyPathMapping decodedPath mapping with
          | none =>
            .error (.localResponse 400 plain "Bad Request"
              "file_server_rejected_non_normalized_path")
          | some filePath => .ok filePath

/-- The first index file of a directory that is there and is not a directory. -/
def resolveDirectoryIndex (os : Os) (dirPath : UnixPath) : List String →
    Option (UnixPath × FileInfo)
  | [] => none
  | indexFile :: rest =>
    let indexPath := dirPath.child indexFile
    match os.stat indexPath with
    | .ok info =>
      if info.isDir then resolveDirectoryIndex os dirPath rest else some (indexPath, info)
    | .error _ => resolveDirectoryIndex os dirPath rest

/-- The file that is served for a file path. -/
def locate (os : Os) (c : FileServerConfig) (filePath : UnixPath) :
    Except Reply (UnixPath × FileInfo) :=
  match os.stat filePath with
  | .error .notExist => .error (.localResponse 404 plain "Not Found" "file_server_not_found")
  | .error .permission =>
    .error (.localResponse 403 plain "Forbidden" "file_server_permission_denied")
  | .error .other =>
    .error (.localResponse 500 plain "Internal Server Error" "file_server_stat_error")
  | .ok info =>
    if info.isDir then
      match resolveDirectoryIndex os filePath c.directoryIndexFiles with
      | none =>
        .error (.localResponse 403 plain "Forbidden" "file_server_no_valid_directory_index")
      | some found => .ok found
    else .ok (filePath, info)

/-- `filepath.Ext` without its dot; `none` when there is no dot in the last
component. -/
def extension (name : String) : Option String :=
  let tail := name.toList.reverse.takeWhile (· ≠ '.')
  if '.' ∈ name.toList then some (String.ofList tail.reverse) else none

def FileServerConfig.contentTypeForPath (c : FileServerConfig) (filePath : UnixPath) : String :=
  let key := (extension filePath.base).getD filePath.base
  (c.contentTypes.lookup key).getD c.defaultContentType

/-- The positions of a range header; an end of zero stands for the end of the
file, and both are zero when the header is not understood. -/
def parseRangeHeader (rangeHeader : List Char) : ℕ × ℕ :=
  let start := "bytes=".toList
  if ¬start.isPrefixOf rangeHeader then (0, 0)
  else
    let rangeSpec := rangeHeader.drop start.length
    if ',' ∈ rangeSpec ∨ '-' ∉ rangeSpec then (0, 0)
    else
      let first := rangeSpec.takeWhile (· ≠ '-')
      let second := (rangeSpec.dropWhile (· ≠ '-')).tail
      match parseUint first with
      | none => (0, 0)
      | some start =>
        match parseUint second with
        | none => (start, 0)
        | some stop => (start, (stop + 1) % 2 ^ 64)

def rangeNotSatisfiable : Reply :=
  .localResponse 416 [("content-type", "text/plain"), ("accept-ranges", "bytes")]
    "Range Not Satisfiable" "file_server_range_not_satisfiable"

def readError : Reply :=
  .localResponse 500 plain "Internal Server Error" "file_server_read_error"

def serve (os : Os) (c : FileServerConfig) (request : Request) (filePath : UnixPath)
    (info : FileInfo) : Reply :=
  let fileSize := info.size
  let (start, stop) := parseRangeHeader request.range
  if fileSize < start ∨ (stop ≠ 0 ∧ fileSize < stop) ∨ (stop ≠ 0 ∧ stop < start) then
    rangeNotSatisfiable
  else
    let contentType := c.contentTypeForPath filePath
    let headers := ("accept-ranges", "bytes") ::
      if contentType ≠ "" then [("content-type", contentType)] else []
    if start ≠ 0 ∨ stop ≠ 0 then
      let stop := if stop = 0 then fileSize else stop
      if stop ≤ start then rangeNotSatisfiable
      else
        let length := stop - start
        let headers := (":status", "206") :: headers ++
          [("content-length", toString length),
            ("content-range", "bytes " ++ toString start ++ "-" ++ toString (stop - 1) ++ "/" ++
              toString fileSize)]
        if request.method = "HEAD" then .response headers []
        else
          match readFileRange os filePath start length with
          | .error _ => readError
          | .ok body => .response headers body
    else
      let headers := (":status", "200") :: headers ++ [("content-length", toString fileSize)]
      if request.method = "HEAD" then .response headers []
      else
        match os.readFile filePath with
        | .error _ => readError
        | .ok body => .response headers body

def onRequestHeaders (os : Os) (c : FileServerConfig) (request : Request) : Reply :=
  match mapRequest c request with
  | .error reply => reply
  | .ok filePath =>
    match locate os c filePath with
    | .error reply => reply
    | .ok (filePath, info) => serve os c request filePath info

def Reply.withoutBody : Reply → Reply
  | response headers _ => response headers []
  | reply => reply

/-- `HEAD` is answered as a `GET` whose file can be read, without the body. -/
theorem onRequestHeaders_head (os : Os) (c : FileServerConfig) (path range : List Char) :
    onRequestHeaders os c ⟨path, "GET", range⟩ = readError ∨
      onRequestHeaders os c ⟨path, "HEAD", range⟩ =
        (onRequestHeaders os c ⟨path, "GET", range⟩).withoutBody := by
  have hmap : mapRequest c ⟨path, "HEAD", range⟩ = mapRequest c ⟨path, "GET", range⟩ := by
    simp [mapRequest]
  simp only [onRequestHeaders, hmap]
  cases hpath : mapRequest c ⟨path, "GET", range⟩ with
  | error reply =>
    unfold mapRequest at hpath
    grind [Reply.withoutBody]
  | ok filePath =>
    dsimp only
    cases hfile : locate os c filePath with
    | error reply =>
      unfold locate at hfile
      grind [Reply.withoutBody]
    | ok found => grind [serve, Reply.withoutBody, rangeNotSatisfiable]

end BuiltOnEnvoy.FileServer

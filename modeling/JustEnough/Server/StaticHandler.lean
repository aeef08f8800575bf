/-
`static_handler.cc` and `fileLoader.cc`: files served from below a root directory.

The file system is a parameter: which paths are directories, and what an `ifstream`
reads from a path.  So is the conversion of Markdown, which another library does.

Between the request and the file system stands only string concatenation: the URI
after the handler's prefix, made to start with a slash, is put behind the root
(`located`), and where that is a directory the name of its index file is added
(`filePath`).  A `std::string` may have NUL bytes in it; the operating system reads a
path up to the first of them.
-/
import JustEnough.Server.ConfigParser
import JustEnough.Server.RequestHandler

namespace JustEnough

/-! ### Files -/

/-- What the operating system says about paths; it is given them as C strings. -/
structure FileSystem where
  /-- Whether `stat` finds a directory, unless it cannot look. -/
  isDirectory : Str → Except Fault Bool
  /-- What can be read from the path, if it can be opened. -/
  contents : Str → Option Str

inductive FileLoaderError
  | none
  | noFile
  | noPermission
  | ioErr
  deriving DecidableEq, Repr

inductive MIMEType
  | text
  | html
  | css
  | js
  | png
  | gif
  | jpeg
  | md
  | unknown
  deriving DecidableEq, Repr

/-- The map has an entry for each type. -/
def MIMETypeMap : MIMEType → Str
  | .html => lit "text/html"
  | .css => lit "text/css"
  | .js => lit "text/javascript"
  | .png => lit "image/png"
  | .gif => lit "image/gif"
  | .jpeg => lit "image/jpeg"
  | .md => lit "text/plain"
  | .text => lit "text/plain"
  | .unknown => lit "text/plain"

def fileExtensionTypeMap : List (Str × MIMEType) :=
  [(lit "gif", .gif), (lit "png", .png), (lit "jpeg", .jpeg), (lit "jpg", .jpeg),
   (lit "html", .html), (lit "htm", .html), (lit "css", .css), (lit "js", .js),
   (lit "md", .md), (lit "txt", .text)]

/-- `FileLoader::openFile`: the error, and the data. -/
def openFile (fs : FileSystem) (filename : Str) : FileLoaderError × Str :=
  match fs.contents (cString filename) with
  | none => (.noFile, [])
  | some data => (.none, data)

/-- The type of the last piece of the name, of those between dots. -/
def guessMIMEType (filename : Str) : MIMEType :=
  match (split filename (byte '.')).reverse with
  | ext :: _ :: _ => (fileExtensionTypeMap.lookup ext).getD .unknown
  | _ => .unknown

/-! ### The handler -/

namespace NotFoundHandler

def handleRequest (resp : Response) : Status × Response :=
  (.ok, ((resp.setStatus Response.code404NotFound).setBody (lit "404 Not Found")).addHeader
    (lit "Content-Type") (lit "text/plain"))

end NotFoundHandler

structure StaticHandler where
  filebase : Str := []
  convertMarkdown : Bool := false
  path : Str
  deriving DecidableEq, Repr

namespace StaticHandler

/-- The loop of `Init`; of several `convert_markdown` only the first is accepted. -/
def initFrom (handler : StaticHandler) (issetMarkdown : Bool) :
    List NginxConfigStatement → Option StaticHandler
  | [] => some handler
  | statement :: rest =>
    match statement.tokens with
    | [key, value] =>
      if key = lit "root" then
        initFrom { handler with filebase := value } issetMarkdown rest
      else if !issetMarkdown && key = lit "convert_markdown" then
        initFrom { handler with convertMarkdown := value = lit "true" } true rest
      else none
    | _ => none

/-- `none` where `Init` returns an error. -/
def init (uriPrefix : Str) (config : NginxConfig) : Option StaticHandler :=
  initFrom { path := uriPrefix } false config

/--
`~StaticHandler` of a handler whose `Init` has returned an error: it asks whether
`notFoundHandler_` is null, which only the end of `Init` sets.
-/
def deleteRefused : Except Fault Unit := .error .undefinedBehaviour

/-- `reqPath`: the URI after the prefix, made to start with a slash. -/
def requestPath (handler : StaticHandler) (uri : Str) : Except Fault Str :=
  (substr uri handler.path.length none).map fun reqPath =>
    if reqPath.head? = some (byte '/') then reqPath else byte '/' :: reqPath

/-- The path put together from the root and the request, before any index file. -/
def located (handler : StaticHandler) (uri : Str) : Except Fault Str :=
  match handler.requestPath uri with
  | .error e => .error e
  | .ok reqPath =>
    match handler.filebase.getLast? with
    | none => .error .undefinedBehaviour
    | some c =>
      .ok (if c = byte '/' then handler.filebase ++ reqPath.drop 1 else handler.filebase ++ reqPath)

def indexFile : Str := lit "index.html"

/-- The path `HandleRequest` gives to `openFile`. -/
def filePath (fs : FileSystem) (handler : StaticHandler) (uri : Str) : Except Fault Str :=
  match handler.located uri with
  | .error e => .error e
  | .ok filepath =>
    (fs.isDirectory (cString filepath)).map fun isDirectory =>
      if isDirectory then
        (if filepath.getLast? = some (byte '/') then filepath else filepath ++ lit "/") ++ indexFile
      else filepath

/-- What the response becomes for a file that was read. -/
def respondWith (handler : StaticHandler) (convertMarkdownToHtml : Str → Str) (filepath data : Str)
    (resp : Response) : Response :=
  let mt := guessMIMEType filepath
  let resp := resp.setStatus Response.code200OK
  if mt = .md ∧ handler.convertMarkdown then
    let convertedMd := convertMarkdownToHtml data
    if convertedMd = [] then resp.setStatus Response.code500InternalError
    else (resp.addHeader (lit "Content-Type") (MIMETypeMap .html)).setBody convertedMd
  else (resp.addHeader (lit "Content-Type") (MIMETypeMap mt)).setBody data

def handleRequest (fs : FileSystem) (convertMarkdownToHtml : Str → Str) (handler : StaticHandler)
    (req : Request) (resp : Response) : Except Fault (Status × Response) :=
  (handler.filePath fs req.uri).map fun filepath =>
    match openFile fs filepath with
    | (.noFile, _) => NotFoundHandler.handleRequest resp
    | (.noPermission, _) => (.ok, resp.setStatus Response.code401Unauthorized)
    | (.ioErr, _) => (.ok, resp.setStatus Response.code500InternalError)
    | (.none, data) => (.ok, handler.respondWith convertMarkdownToHtml filepath data resp)

end StaticHandler

end JustEnough

import Splice.RequestParser
import Splice.Lib.HexStream

/-!
# Splice.HttpServer

`http::server`: replies, MIME types and the request handler that serves files.

The file system is a parameter: the content of the file with a given name, if it can
be opened.  Names go to it as C strings, so they end before their first null
character.
-/

namespace Splice

open Incremental (Tribool)

namespace HttpServer

/-- `reply::status_type`. -/
inductive StatusType where
  | ok
  | created
  | accepted
  | noContent
  | multipleChoices
  | movedPermanently
  | movedTemporarily
  | notModified
  | badRequest
  | unauthorized
  | forbidden
  | notFound
  | internalServerError
  | notImplemented
  | badGateway
  | serviceUnavailable
  deriving DecidableEq, Repr

/-- `http::server::reply`. -/
structure Reply where
  status : StatusType
  headers : List Header
  content : List UInt8
  deriving DecidableEq, Repr

namespace Reply

/-- `status_strings::to_buffer`. -/
def statusString : StatusType → String
  | .ok => "HTTP/1.0 200 OK\r\n"
  | .created => "HTTP/1.0 201 Created\r\n"
  | .accepted => "HTTP/1.0 202 Accepted\r\n"
  | .noContent => "HTTP/1.0 204 No Content\r\n"
  | .multipleChoices => "HTTP/1.0 300 Multiple Choices\r\n"
  | .movedPermanently => "HTTP/1.0 301 Moved Permanently\r\n"
  | .movedTemporarily => "HTTP/1.0 302 Moved Temporarily\r\n"
  | .notModified => "HTTP/1.0 304 Not Modified\r\n"
  | .badRequest => "HTTP/1.0 400 Bad Request\r\n"
  | .unauthorized => "HTTP/1.0 401 Unauthorized\r\n"
  | .forbidden => "HTTP/1.0 403 Forbidden\r\n"
  | .notFound => "HTTP/1.0 404 Not Found\r\n"
  | .internalServerError => "HTTP/1.0 500 Internal Server Error\r\n"
  | .notImplemented => "HTTP/1.0 501 Not Implemented\r\n"
  | .badGateway => "HTTP/1.0 502 Bad Gateway\r\n"
  | .serviceUnavailable => "HTTP/1.0 503 Service Unavailable\r\n"

/-- The page with a title and a heading. -/
def page (title heading : String) : String :=
  "<html><head><title>" ++ title ++ "</title></head><body><h1>" ++ heading ++ "</h1></body></html>"

/-- `stock_replies::to_string`. -/
def stockContent : StatusType → String
  | .ok => ""
  | .created => page "Created" "201 Created"
  | .accepted => page "Accepted" "202 Accepted"
  | .noContent => page "No Content" "204 Content"
  | .multipleChoices => page "Multiple Choices" "300 Multiple Choices"
  | .movedPermanently => page "Moved Permanently" "301 Moved Permanently"
  | .movedTemporarily => page "Moved Temporarily" "302 Moved Temporarily"
  | .notModified => page "Not Modified" "304 Not Modified"
  | .badRequest => page "Bad Request" "400 Bad Request"
  | .unauthorized => page "Unauthorized" "401 Unauthorized"
  | .forbidden => page "Forbidden" "403 Forbidden"
  | .notFound => page "Not Found" "404 Not Found"
  | .internalServerError => page "Internal Server Error" "500 Internal Server Error"
  | .notImplemented => page "Not Implemented" "501 Not Implemented"
  | .badGateway => page "Bad Gateway" "502 Bad Gateway"
  | .serviceUnavailable => page "Service Unavailable" "503 Service Unavailable"

/-- `Content-Length` and `Content-Type` of some content. -/
def contentHeaders (content : List UInt8) (mimeType : String) : List Header :=
  [⟨chars "Content-Length", chars (toString content.length)⟩,
    ⟨chars "Content-Type", chars mimeType⟩]

def stockReply (status : StatusType) : Reply :=
  let content := chars (stockContent status)
  { status := status, headers := contentHeaders content "text/html", content := content }

def toBuffers (reply : Reply) : List (List UInt8) :=
  chars (statusString reply.status) ::
    reply.headers.flatMap (fun h => [h.name, chars ": ", h.value, chars "\r\n"]) ++
      [chars "\r\n", reply.content]

end Reply

/-- `mime_types::extension_to_type`. -/
def extensionToType (extension : List UInt8) : String :=
  let mappings :=
    [("gif", "image/gif"), ("htm", "text/html"), ("html", "text/html"), ("jpg", "image/jpeg"),
      ("png", "image/png")]
  match mappings.find? fun m => chars m.1 = extension with
  | some m => m.2
  | none => "text/plain"

/-- `url_decode`; `none` where it returns false. -/
def urlDecode : List UInt8 → Option (List UInt8)
  | [] => some []
  | b :: rest =>
      if b = '%'.toUInt8 then
        match rest with
        | x :: y :: rest =>
            match HexStream.extractInt 32 [x, y] with
            | some value => (urlDecode rest).map (UInt8.ofNat (value % 256).toNat :: ·)
            | none => none
        | _ => none
      else if b = '+'.toUInt8 then (urlDecode rest).map (' '.toUInt8 :: ·)
      else (urlDecode rest).map (b :: ·)

/-- `std::string::find_last_of` of one character; `none` for `npos`. -/
def findLastOf (c : Char) (text : List UInt8) : Option Nat :=
  (List.range text.length).reverse.find? fun i => text[i]? = some c.toUInt8

/-- The text after the last dot, if that comes after the last slash. -/
def extensionOf (requestPath : List UInt8) : List UInt8 :=
  match findLastOf '.' requestPath, findLastOf '/' requestPath with
  | some lastDotPos, some lastSlashPos =>
      if lastSlashPos < lastDotPos then requestPath.drop (lastDotPos + 1) else []
  | _, _ => []

/-- What the handler takes from its environment: the directory that it serves, and the
file system. -/
structure Site where
  docRoot : List UInt8
  openFile : List UInt8 → Option (List UInt8)

/-- `c_str()` as the file system reads it. -/
def cString (text : List UInt8) : List UInt8 := text.takeWhile (· ≠ 0)

/-- `request_handler::handle_request`. -/
def handleRequest (site : Site) (req : Request) : Reply :=
  match urlDecode req.uri with
  | none => .stockReply .badRequest
  | some requestPath =>
      if requestPath.head? ≠ some '/'.toUInt8 ∨ contains (chars "..") requestPath then
        .stockReply .badRequest
      else
        let requestPath :=
          if requestPath.getLast? = some '/'.toUInt8 then requestPath ++ chars "index.html"
          else requestPath
        match site.openFile (cString (site.docRoot ++ requestPath)) with
        | none => .stockReply .notFound
        | some content =>
            { status := .ok
              headers := Reply.contentHeaders content (extensionToType (extensionOf requestPath))
              content := content }

/-- `request_parser::parse`. -/
def parseRequest (state : RequestParser.State) (req : Request) (input : List UInt8) :
    Tribool × (RequestParser.State × Request) × List UInt8 :=
  RequestParser.parse state req input

end HttpServer

end Splice

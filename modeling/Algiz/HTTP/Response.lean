/-
  `HTTP::Response`: what is written to a client.
-/
import Algiz.HTTP.Request

namespace Algiz.HTTP

/-- `Response::codeDescriptions` -/
def codeDescription : Int → Option String
  | 100 => some "Continue"
  | 101 => some "Switching Protocols"
  | 102 => some "Processing"
  | 103 => some "Early Hints"
  | 200 => some "OK"
  | 201 => some "Created"
  | 202 => some "Accepted"
  | 203 => some "Non-Authoritative Information"
  | 204 => some "No Content"
  | 205 => some "Reset Content"
  | 206 => some "Partial Content"
  | 207 => some "Multi-Status"
  | 208 => some "Already Reported"
  | 226 => some "IM Used"
  | 300 => some "Multiple Choices"
  | 301 => some "Moved Permanently"
  | 302 => some "Found"
  | 303 => some "See Other"
  | 304 => some "Not Modified"
  | 305 => some "Use Proxy"
  | 306 => some "Switch Proxy"
  | 307 => some "Temporary Redirect"
  | 308 => some "Permanent Redirect"
  | 400 => some "Bad Request"
  | 401 => some "Unauthorized"
  | 402 => some "Payment Required"
  | 403 => some "Forbidden"
  | 404 => some "Not Found"
  | 405 => some "Method Not Allowed"
  | 406 => some "Not Acceptable"
  | 407 => some "Proxy Authentication Required"
  | 408 => some "Request Timeout"
  | 409 => some "Conflict"
  | 410 => some "Gone"
  | 411 => some "Length Required"
  | 412 => some "Precondition Failed"
  | 413 => some "Payload Too Large"
  | 414 => some "URI Too Long"
  | 415 => some "Unsupported Media Type"
  | 416 => some "Range Not Satisfiable"
  | 417 => some "Expectation Failed"
  | 418 => some "I'm a teapot"
  | 421 => some "Misdirected Request"
  | 422 => some "Unprocessable Entity"
  | 423 => some "Locked"
  | 424 => some "Failed Dependency"
  | 425 => some "Too Early"
  | 426 => some "Upgrade Required"
  | 428 => some "Precondition Required"
  | 429 => some "Too Many Requests"
  | 431 => some "Request Header Fields Too Large"
  | 451 => some "Unavailable For Legal Reasons"
  | 500 => some "Internal Server Error"
  | 501 => some "Not Implemented"
  | 502 => some "Bad Gateway"
  | 503 => some "Service Unavailable"
  | 504 => some "Gateway Timeout"
  | 505 => some "HTTP Version Not Supported"
  | 506 => some "Variant Also Negotiates"
  | 507 => some "Insufficient Storage"
  | 508 => some "Loop Detected"
  | 510 => some "Not Extended"
  | 511 => some "Network Authentication Required"
  | _ => none

/-- `HTTP::Response` -/
structure Response where
  code : Int
  content : Bytes
  mime : Bytes := ascii "text/html"
  charset : Bytes := []
  /-- the constructors call `setClose(true)` -/
  headers : StringMap := (∅ : StringMap).insert (ascii "connection") (ascii "close")
  noContentType : Bool := false

namespace Response

/-- `response[header] = value` -/
def set (r : Response) (header value : Bytes) : Response :=
  { r with headers := r.headers.insert header value }

/-- `Response::generate500` -/
def generate500 : Bytes :=
  ascii "HTTP/1.1 500 Internal Server Error\r\nContent-Type: text/html; charset=UTF-8\r\n" ++
    ascii "Content-Length: 21\r\nConnection: close\r\n\r\nInternal Server Error"

/-- One header as it is written. -/
def headerText (name value : Bytes) : Bytes := name ++ ascii ": " ++ value ++ ascii "\r\n"

/-- `Response::noContent` -/
def noContent (r : Response) : Bytes :=
  match codeDescription r.code with
  | none => generate500
  | some description =>
    let charset := if r.charset.isEmpty then [] else ascii "; charset=" ++ r.charset
    let contentType :=
      if !r.noContentType && !r.headers.contains (ascii "content-type") then
        headerText (ascii "Content-Type") (r.mime ++ charset)
      else []
    let contentLength :=
      if !r.headers.contains (ascii "content-length") then
        headerText (ascii "Content-Length") (decimalText r.content.length)
      else []
    ascii "HTTP/1.1 " ++ decimalText r.code ++ ascii " " ++ ascii description ++ ascii "\r\n" ++
      contentType ++ contentLength ++
      (r.headers.toList.map fun header => headerText header.1 header.2).flatten ++ ascii "\r\n"

/-- `Response::operator std::string` -/
def toBytes (r : Response) : Bytes := r.noContent ++ r.content

end Response

end Algiz.HTTP

import MediaRelay.Http.Request
import MediaRelay.Octets

-- A stream is answered with `200 OK`, its content type, and headers that forbid caching and
-- announce that the connection closes when the stream ends; the body is the stream itself. A path
-- that names no stream is answered with `404 Not Found` and no headers. Both answer in the version
-- of the request.

namespace MediaRelay

namespace Http

def utf8 (s : String) : Octets :=
  s.toUTF8.toList

def okResponse (v : Version) (contentType : String) : Octets :=
  utf8 (v.token ++ " 200 OK\r\nContent-Type: " ++ contentType ++
    "\r\nCache-Control: no-cache\r\nPragma: no-cache\r\nConnection: close\r\n\r\n")

def notFoundResponse (v : Version) : Octets :=
  utf8 (v.token ++ " 404 Not Found\r\n\r\n")

end Http

end MediaRelay

import CppSearchServer.Bytes

/-! The responses of `http/HttpResponse.cpp`. -/

namespace CppSearchServer.Http

def response (status contentType : String) (body : Bytes) (closeConnection : Bool) : Bytes :=
  ascii "HTTP/1.1 " ++ ascii status ++ ascii "\r\n" ++
    ascii "Content-Type: " ++ ascii contentType ++ ascii "\r\n" ++
    ascii "Content-Length: " ++ decimal body.length ++ ascii "\r\n" ++
    ascii "Connection: " ++ ascii (if closeConnection then "close" else "keep-alive") ++
    ascii "\r\n" ++ ascii "\r\n" ++ body

def okText (body : Bytes) (closeConnection : Bool) : Bytes :=
  response "200 OK" "text/plain; charset=utf-8" body closeConnection

def okJson (body : Bytes) (closeConnection : Bool) : Bytes :=
  response "200 OK" "application/json; charset=utf-8" body closeConnection

def notFound (closeConnection : Bool) : Bytes :=
  response "404 Not Found" "text/plain; charset=utf-8" (ascii "Not Found\n") closeConnection

def badRequest (body : Bytes) (closeConnection : Bool) : Bytes :=
  response "400 Bad Request" "text/plain; charset=utf-8" body closeConnection

def internalServerError (closeConnection : Bool) : Bytes :=
  response "500 Internal Server Error" "text/plain; charset=utf-8"
    (ascii "Internal Server Error\n") closeConnection

end CppSearchServer.Http

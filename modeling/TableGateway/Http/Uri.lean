import TableGateway.Json.Token
import TableGateway.Text.Basic
import TableGateway.Text.Utf8

/-!
# Request targets

A request target has a path and a query; a fragment is dropped, and so are a scheme and a host at
its front. Segments of the path are percent-decoded and must be UTF-8. The query is a form: a plus
sign is a blank, and bytes that are no UTF-8 are replaced.
-/

namespace TableGateway.Uri

/-- The target from its path on. A path begins with a slash. -/
def withoutHost (uri : List Char) : List Char :=
  match uri with
  | '/' :: _ => uri
  | _ =>
    match uri.dropWhile (· != ':') with
    | ':' :: '/' :: '/' :: rest => rest.dropWhile fun c => c != '/' && c != '?'
    | _ => uri

def pathAndQuery (uri : String) : List Char := withoutHost (uri.toList.takeWhile (· != '#'))

def path (uri : String) : List Char := (pathAndQuery uri).takeWhile (· != '?')

def query (uri : String) : List Char := ((pathAndQuery uri).dropWhile (· != '?')).drop 1

/-- The bytes of a text in which `%` and two hexadecimal digits stand for a byte. Any other `%`
stands for itself. -/
def percentBytes : List Char → List UInt8
  | '%' :: a :: b :: rest =>
    match Json.hexValue? a, Json.hexValue? b with
    | some x, some y => UInt8.ofNat (16 * x + y) :: percentBytes rest
    | _, _ => String.utf8EncodeChar '%' ++ percentBytes (a :: b :: rest)
  | c :: rest => String.utf8EncodeChar c ++ percentBytes rest
  | [] => []

def decodeSegment? (cs : List Char) : Option String :=
  (Text.decodeUtf8? (percentBytes cs)).map String.ofList

def segments (path : List Char) : List (List Char) :=
  match path with
  | '/' :: rest => Text.splitChars (· = '/') rest
  | _ => []

def decodeFormText (cs : List Char) : String :=
  let spaced := cs.map fun c => if c = '+' then ' ' else c
  String.ofList (Text.decodeUtf8Lossy (percentBytes spaced))

/-- The name and the value of a parameter, which the first equals sign separates. -/
def parameter (cs : List Char) : String × String :=
  (decodeFormText (cs.takeWhile (· != '=')), decodeFormText ((cs.dropWhile (· != '=')).drop 1))

/-- The parameters of a query; empty pieces are passed over. -/
def parameters (query : List Char) : List (String × String) :=
  ((Text.splitChars (· = '&') query).filter fun piece => !piece.isEmpty).map parameter

end TableGateway.Uri

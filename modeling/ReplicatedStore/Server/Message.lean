import ReplicatedStore.Error
import ReplicatedStore.Json.Form
import ReplicatedStore.Json.Printer

/-!
HTTP requests and responses, as far as the server looks at them.
-/

namespace ReplicatedStore

structure HttpRequest where
  method : String
  target : String
  headers : List (String × String) := []
  body : Bytes := []
  deriving DecidableEq, Repr

namespace HttpRequest

def behindScheme? (target : List Char) : Option (List Char) :=
  match target.span fun c => c.isAlphanum || c = '+' || c = '-' || c = '.' with
  | (_ :: _, ':' :: '/' :: '/' :: rest) => some rest
  | _ => none

def endsPath (c : Char) : Bool := c = '?' || c = '#'

def path (request : HttpRequest) : String :=
  let target := request.target.toList
  match behindScheme? target with
  | none => String.ofList (target.takeWhile fun c => !endsPath c)
  | some rest =>
    let path := (rest.dropWhile fun c => c ≠ '/' && !endsPath c).takeWhile fun c => !endsPath c
    if path.isEmpty then "/" else String.ofList path

def header? (request : HttpRequest) (name : String) : Option String :=
  (request.headers.find? fun (n, _) => n.map Char.toLower = name).map (·.2)

end HttpRequest

inductive RequestId where
  | given (text : String)
  | fresh
  deriving DecidableEq, Repr

structure HttpResponse where
  status : Nat
  contentType : Option String := none
  allow : Option String := none
  requestId : Option RequestId := none
  body : Bytes := []
  deriving DecidableEq, Repr

namespace HttpResponse

def jsonType : String := "application/json"

def text (status : Nat) (content : String) : HttpResponse :=
  { status, contentType := "text/plain; charset=utf-8", body := Bytes.ofText content }

def binary (body : Bytes) : HttpResponse :=
  { status := 200, contentType := "application/octet-stream", body }

def json (status : Nat) (content : Json) : HttpResponse :=
  { status, contentType := jsonType, body := Bytes.ofText content.compact }

def notFound : HttpResponse := { status := 404 }

def notAllowed (methods : List String) : HttpResponse :=
  { status := 405, allow := ",".intercalate methods }

def ofError (e : Error) : HttpResponse :=
  let leader := match e with
    | .notLeader leader => [("leader", toJson leader)]
    | _ => []
  json e.status (.object (("error", .string e.message) :: leader))

def ofResult (f : α → HttpResponse) : Except Error α → HttpResponse
  | .ok a => f a
  | .error e => ofError e

def head (response : HttpResponse) : HttpResponse := { response with body := [] }

end HttpResponse

end ReplicatedStore

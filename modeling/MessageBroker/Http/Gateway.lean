import MessageBroker.Http.Server

/-! # Requests from outside

What the server does around `serve`. Slashes that are repeated in a path, or that end it, do not
count. Pages of any site may read the answers. Whether a page may send a request, which a browser
asks beforehand, is answered without serving a request, and so without counting one. -/

namespace MessageBroker.Http

/-- A request with the headers that say which page sends it. -/
structure Arrival where
  request : Request
  /-- The site of the page. -/
  origin : Option String
  /-- The method that the page asks to use. -/
  requestedMethod : Option String

/-- An answer with the site whose pages may read it. -/
structure Departure where
  response : Response
  allowOrigin : Option String

/-! ### Paths -/

/-- A path with each run of slashes as one slash. -/
def mergeSlashes : List Char → List Char
  | [] => []
  | c :: r => if c = '/' ∧ r.head? = some '/' then mergeSlashes r else c :: mergeSlashes r

/-- A path without the slashes at its end. -/
def trimSlashes (path : List Char) : List Char := (path.reverse.dropWhile (· = '/')).reverse

/-- A path whose segments are none of them empty; the root keeps its slash. -/
def tidyPath (path : String) : String :=
  match mergeSlashes (trimSlashes path.toList) with
  | [] => "/"
  | tidy => String.ofList tidy

/-- A request with a tidy path and the same query. -/
def Request.tidy (r : Request) : Request :=
  { r with target := tidyPath r.path ++ String.ofList (r.reference.dropWhile (· ≠ '?')) }

/-! ### Answers -/

/-- Whether a request only asks whether another one may be sent. -/
def Arrival.isInquiry (a : Arrival) : Bool :=
  a.request.method == "OPTIONS" && a.requestedMethod.isSome

/-- The answer to the question whether a request may be sent: it may. -/
def permission : Response := ⟨200, none⟩

/-- The answer to a request from outside, and the broker after it. -/
def receive (a : Arrival) (now : Instant) (b : Broker) : Departure × Broker :=
  if a.isInquiry then (⟨permission, a.origin⟩, b)
  else
    let (response, b) := serve a.request.tidy now b
    (⟨response, a.origin⟩, b)

end MessageBroker.Http

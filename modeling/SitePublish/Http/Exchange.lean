import SitePublish.Http.Url
import SitePublish.Json.Printer
import SitePublish.Json.Reader

/-!
# Requests and responses

One request to a web service and the response to it. The connection is a function on a state of its
own, which may also give no response at all. A response that is no success is reduced to its status
and a message, taken from its body if the body has one.
-/

set_option autoImplicit false

namespace SitePublish.Http

inductive Method where
  | get
  | post
  | patch
deriving DecidableEq

structure Request where
  method : Method
  url : Url
  headers : List (String × String)
  body : Option Json
deriving DecidableEq

structure Response where
  status : Nat
  body : String
deriving DecidableEq

abbrev Exchange (σ : Type) := Request → σ → Option Response × σ

abbrev Call (σ ε α : Type) := ExceptT ε (StateM σ) α

def userAgent : String := "siteforge/0.4.0"

def unanswered (u : Url) : String := "error sending request for url (" ++ u.text ++ ")"

def malformedRequest : String := "builder error"

def malformedBody : String := "error decoding response body"

def reasonPhrases : List (Nat × String) :=
  [(100, "Continue"), (101, "Switching Protocols"), (102, "Processing"), (103, "Early Hints"),
   (200, "OK"), (201, "Created"), (202, "Accepted"), (203, "Non Authoritative Information"),
   (204, "No Content"), (205, "Reset Content"), (206, "Partial Content"), (207, "Multi-Status"),
   (208, "Already Reported"), (226, "IM Used"), (300, "Multiple Choices"),
   (301, "Moved Permanently"), (302, "Found"), (303, "See Other"), (304, "Not Modified"),
   (305, "Use Proxy"), (307, "Temporary Redirect"), (308, "Permanent Redirect"),
   (400, "Bad Request"), (401, "Unauthorized"), (402, "Payment Required"), (403, "Forbidden"),
   (404, "Not Found"), (405, "Method Not Allowed"), (406, "Not Acceptable"),
   (407, "Proxy Authentication Required"), (408, "Request Timeout"), (409, "Conflict"),
   (410, "Gone"), (411, "Length Required"), (412, "Precondition Failed"),
   (413, "Payload Too Large"), (414, "URI Too Long"), (415, "Unsupported Media Type"),
   (416, "Range Not Satisfiable"), (417, "Expectation Failed"), (418, "I'm a teapot"),
   (421, "Misdirected Request"), (422, "Unprocessable Entity"), (423, "Locked"),
   (424, "Failed Dependency"), (425, "Too Early"), (426, "Upgrade Required"),
   (428, "Precondition Required"), (429, "Too Many Requests"),
   (431, "Request Header Fields Too Large"), (451, "Unavailable For Legal Reasons"),
   (500, "Internal Server Error"), (501, "Not Implemented"), (502, "Bad Gateway"),
   (503, "Service Unavailable"), (504, "Gateway Timeout"), (505, "HTTP Version Not Supported"),
   (506, "Variant Also Negotiates"), (507, "Insufficient Storage"), (508, "Loop Detected"),
   (510, "Not Extended"), (511, "Network Authentication Required")]

def reasonPhrase (status : Nat) : String :=
  ((reasonPhrases.find? fun r => r.1 = status).map Prod.snd).getD "request failed"

namespace Response

def isSuccess (r : Response) : Bool := 200 ≤ r.status && r.status < 300

def messageField (budget : Nat) (t : Option Json.Tree) : Option (Option String) :=
  Json.Shape.field (Json.Shape.optional Json.Shape.string) none budget t

def nestedShape : Json.Shape (Option String) :=
  Json.Shape.record [["message"]] fun budget fields =>
    match fields with
    | [message] => messageField budget message
    | _ => none

def messageShape : Json.Shape (Option String) :=
  Json.Shape.record [["message"], ["error"]] fun budget fields =>
    match fields with
    | [message, error] => do
      let message ← messageField budget message
      let nested ← Json.Shape.field (Json.Shape.optional nestedShape) none budget error
      return message.or (nested.bind id)
    | _ => none

def message (r : Response) : String :=
  match messageShape.parse? r.body with
  | some (some text) => if text = "" then reasonPhrase r.status else text
  | _ => reasonPhrase r.status

end Response

def isHeaderText (s : String) : Bool :=
  s.toList.all fun c => c = '\t' || (0x20 ≤ c.toNat && c.toNat ≠ 0x7F)

def headers (accept token : String) (more : List (String × String)) (body : Option Json) :
    List (String × String) :=
  [("accept", accept), ("authorization", "Bearer " ++ token), ("user-agent", userAgent)] ++ more ++
    if body.isSome then [("content-type", "application/json")] else []

end SitePublish.Http

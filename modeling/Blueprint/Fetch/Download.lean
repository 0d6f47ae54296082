import Blueprint.Fetch.World
import Blueprint.Url.Basic

/-!
Downloaders: which URIs they accept, and what they fetch from a URI. What is fetched is there after
some time.

* `Downloader.file` reads plain paths and `file` URLs; relative paths start at a root of its own, if
  it has one.
* `Downloader.web` asks for `http` and `https` URLs. What the network answers is a parameter.
* `Downloader.general` is both in turn.
* `Downloader.published` serves content from memory.
-/

set_option autoImplicit false

namespace Blueprint

/-- What a download comes to. -/
structure Delivery where
  /-- Milliseconds until the outcome is there. -/
  after : Nat := 0
  outcome : Except ResolveError Bytes

structure Downloader where
  name : String
  accepts : Descriptor → Bool
  download : World → Descriptor → Delivery

/-- What the network answers to a request for a URL. -/
inductive WebAnswer where
  | status (code : Nat) (body : Bytes)
  | broken (reason : String)

/-- The network: what a request for a URI comes to. -/
abbrev Web := String → WebAnswer

/-- A network on which nothing answers. -/
def Web.unreachable : Web := fun uri ↦ .broken s!"error sending request for url ({uri})"

namespace Downloader

/-! ### Files -/

/-- A path or a `file` URL, of which there is at least something. -/
def isFileUri (uri : String) : Bool :=
  match Url.schemeOf? uri with
  | none => uri ≠ ""
  | some scheme => scheme == "file"

/-- The path that a URI names. -/
def pathOf (uri : String) : Except ResolveError Path :=
  match Url.schemeOf? uri with
  | none => .ok (Path.ofString uri)
  | some "file" =>
    match (Url.ofString? uri).bind Url.filePath? with
    | some path => .ok path
    | none => .error (.malformedUri uri)
  | some _ => .error (.malformedUri uri)

/-- Reads the file that a URI names. -/
def readUri (root : Option Path) (files : Files) (uri : String) : Except ResolveError Bytes := do
  let path ← pathOf uri
  let path := match root with
    | some root => root.join path
    | none => path
  match files.read path with
  | .ok content => .ok content
  | .error e => .error (.transport uri e.message)

def file (root : Option Path) : Downloader where
  name := "file"
  accepts d := isFileUri d.uri
  download world d := { outcome := readUri root world.files d.uri }

/-! ### The web -/

def isWebUri (uri : String) : Bool :=
  match Url.schemeOf? uri with
  | some scheme => scheme == "http" || scheme == "https"
  | none => false

/-- What a request for a URI comes to; only the statuses from 200 to 299 are successes. -/
def requestUri (web : Web) (uri : String) : Except ResolveError Bytes :=
  match Url.ofString? uri with
  | none => .error (.malformedUri uri)
  | some _ =>
    match web uri with
    | .broken reason => .error (.transport uri reason)
    | .status code body =>
      if 200 ≤ code ∧ code < 300 then .ok body else .error (.httpStatus uri code)

def web (net : Web) : Downloader where
  name := "http"
  accepts d := isWebUri d.uri
  download _ d := { outcome := requestUri net d.uri }

/-! ### Both, and content in memory -/

def general (root : Option Path) (net : Web) : Downloader where
  name := "default"
  accepts d := isWebUri d.uri || isFileUri d.uri
  download world d :=
    if isWebUri d.uri then (web net).download world d
    else if isFileUri d.uri then (file root).download world d
    else { outcome := .error (.noDownloader d.uri) }

/-- Serves what is published, for URIs of one scheme or for all, after a delay. -/
def published (name : String) (scheme : Option String) (delay : Nat) : Downloader where
  name
  accepts d := scheme.all fun scheme ↦ d.uri.startsWith (scheme ++ ":")
  download world d :=
    { after := delay
      outcome := match world.published.get? d.uri with
        | some content => .ok content
        | none => .error (.httpStatus d.uri 404) }

end Downloader

end Blueprint

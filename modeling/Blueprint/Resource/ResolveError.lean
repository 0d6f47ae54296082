import Blueprint.Interpreter.Error
import Blueprint.Resource.Basic

/-!
Failures on the way from a resource id to an asset.
-/

set_option autoImplicit false

namespace Blueprint

inductive ResolveError where
  | emptyId
  | unknownId (id : String)
  | noDownloader (uri : String)
  | malformedUri (uri : String)
  | httpStatus (uri : String) (status : Nat)
  | transport (uri reason : String)
  | decode (id kind reason : String)
  | unsupportedVersion (id found : String) (supported : VersionRange)
  | deadlineExceeded (id : String) (milliseconds : Nat)
  | engine (error : EngineError)
deriving DecidableEq

def ResolveError.name : ResolveError → String
  | .emptyId => "EmptyId"
  | .unknownId _ => "UnknownId"
  | .noDownloader _ => "NoDownloader"
  | .malformedUri _ => "MalformedUri"
  | .httpStatus .. => "HttpStatus"
  | .transport .. => "Transport"
  | .decode .. => "Decode"
  | .unsupportedVersion .. => "UnsupportedVersion"
  | .deadlineExceeded .. => "DeadlineExceeded"
  | .engine error => error.name

def ResolveError.message : ResolveError → String
  | .emptyId => ResourceId.emptyMessage
  | .unknownId id => s!"unknown resource id: {id}"
  | .noDownloader uri => s!"no downloader accepts {uri}"
  | .malformedUri uri => s!"malformed uri: {uri}"
  | .httpStatus uri status => s!"HTTP {status} while fetching {uri}"
  | .transport uri reason => s!"failed to fetch {uri}: {reason}"
  | .decode id kind reason => s!"failed to decode {id} as {kind}: {reason}"
  | .unsupportedVersion id found supported =>
    s!"blueprint {id} declares unsupported schema version {found} " ++
      s!"(supported {supported.min.render} ..= {supported.max.render})"
  | .deadlineExceeded id milliseconds =>
    s!"resolve of {id} exceeded its deadline of {milliseconds}ms"
  | .engine error => error.message

end Blueprint

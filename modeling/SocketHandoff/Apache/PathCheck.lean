import SocketHandoff.Apache.Worker

/-!
# The path check

`validate_socket_path` and the prefixes `socket_handoff_post_config` caches for it. The
functions are pure: `apr_filepath_merge` comes in as a parameter, taken on the file system of
the moment.
-/

namespace SocketHandoff.Apache

/-- `apr_filepath_merge(&result, NULL, path, flags, pool)` on one state of the file system:
`APR_FILEPATH_NOTRELATIVE` is always among the flags, `APR_FILEPATH_TRUENAME` if the first
argument says so. `none` is any failure. -/
abbrev FilepathMerge := (truename : Bool) → CStr → Option CStr

/-- The byte `/`. -/
def slash : UInt8 := 47

/-- `apr_pstrcat(pool, path, "/", NULL)`. -/
def CStr.appendSlash (path : CStr) : CStr where
  bytes := path.bytes ++ [slash]
  noNul := by
    have := path.noNul
    simp [slash, this]

/-- The path itself if it ends in a slash, otherwise with one appended. -/
def CStr.withSlash (path : CStr) : CStr :=
  if path.bytes.getLast? = some slash then path else path.appendSlash

/-- `strncmp(path, pre, strlen(pre)) == 0`. -/
def CStr.startsWith (path pre : CStr) : Bool := pre.bytes.isPrefixOf path.bytes

/-- The prefix a check compares with: the cached one, or one resolved now. -/
def prefixWithSlash (merge : FilepathMerge) (truename : Bool) (cached : Option CStr)
    (allowed : CStr) : Option CStr :=
  match cached with
  | some resolved => some resolved
  | none => (merge truename allowed).map CStr.withSlash

/-- The second check of `validate_socket_path`, made when the path exists. -/
def checkTruename (merge : FilepathMerge) (conf : Config) (allowed socketPath : CStr) : Bool :=
  match merge true socketPath with
  | none => true
  | some truenamePath =>
    match prefixWithSlash merge true conf.resolvedPrefixTruename allowed with
    | none => false
    | some pre => truenamePath.startsWith pre

/-- `validate_socket_path`: the path and the prefix are merged by `apr_filepath_merge`, a parameter
here, and compared as text; a path that exists is compared a second time, after a merge with
`APR_FILEPATH_TRUENAME`. No prefix, or an empty one, allows every path. -/
def validateSocketPath (merge : FilepathMerge) (conf : Config) (socketPath : CStr) : Bool :=
  match conf.allowedSocketPrefix with
  | none => true
  | some allowed =>
    if allowed.bytes = [] then true
    else
      match merge false socketPath with
      | none => false
      | some resolvedPath =>
        match prefixWithSlash merge false conf.resolvedPrefix allowed with
        | none => false
        | some pre =>
          if resolvedPath.startsWith pre then checkTruename merge conf allowed socketPath
          else false

/-- What `socket_handoff_post_config` keeps of a resolved prefix. -/
def cachedPrefix (resolved : CStr) : CStr :=
  if resolved.bytes = [] then resolved else resolved.withSlash

/-- `socket_handoff_post_config` on one server: a prefix that does not resolve leaves its cache
as it was. -/
def postConfig (merge : FilepathMerge) (conf : Config) : Config :=
  match conf.allowedSocketPrefix with
  | none => conf
  | some allowed =>
    { conf with
      resolvedPrefix := ((merge false allowed).map cachedPrefix).or conf.resolvedPrefix
      resolvedPrefixTruename :=
        ((merge true allowed).map cachedPrefix).or conf.resolvedPrefixTruename }

end SocketHandoff.Apache

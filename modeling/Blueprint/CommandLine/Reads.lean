import Blueprint.CommandLine.Basic

/-!
Which files a command may read. `Command.reads` tells it as far as the files that are known tell: a
configuration names catalogs, and those name resources. Reading what it names and asking again
comes to an end after as many rounds.
-/

set_option autoImplicit false

namespace Blueprint

/-- The files that a provider may read for a resource: its own, and its entry in a cache on disk. -/
def Config.readsFor (config : Config) (around : Surroundings) (d : Descriptor) : List Path :=
  let source := match Downloader.pathOf d.uri with
    | .ok path => [match config.download.fileRoot with
        | some root => root.join path
        | none => path]
    | .error _ => []
  let entry := match config.cache.kind, d.hash with
    | .disk, some hash =>
      if Cache.isFileHash hash then
        [Cache.entryPath (config.cache.path.getD around.cacheRoot) hash]
      else []
    | _, _ => []
  source ++ entry

/-- The files that a provider may read. -/
def Config.reads (config : Config) (around : Surroundings) (files : Files) : List Path :=
  let descriptors := config.catalogs.flatMap fun path ↦
    match Catalog.ofFile files path with
    | .ok c => c.entries
    | .error _ => []
  config.catalogs ++ descriptors.flatMap (config.readsFor around)

/-- The files that setting up a provider may read, and those that the provider may. -/
def Setup.reads (s : Setup) (around : Surroundings) (files : Files) : List Path :=
  s.config.toList ++ match s.configuration files with
    | .ok config => config.reads around files
    | .error _ => []

/-- The files that a command may read. -/
def Command.reads (around : Surroundings) (files : Files) : Command → List Path
  | .catalog file => [file]
  | .preload setup => setup.reads around files
  | .run _ setup _ => setup.reads around files

end Blueprint

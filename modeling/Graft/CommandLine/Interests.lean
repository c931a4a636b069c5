import Graft.CommandLine

/-!
# Interests

The paths that a command line is about, as far as the part of a disk that is known tells: the
directories by which the project is known, the file of the configuration, and the files and the
directory that the configuration and the arguments name. More may come to light once these are known
in turn; three rounds find everything, for the project leads to the configuration and that to the
rest.
-/

namespace Graft

namespace CommandLine

/-- How often interests lead to further ones. -/
def rounds : Nat := 3

/-- The directories by which the projects at and above a location would be known. -/
def landmarks (l : Location) : List Path :=
  (Project.ancestors l).flatMap fun above =>
    Project.markers.map fun m => Path.ofLocation (above ++ [m])

/-- The path that can be made out, if one can. -/
def known (path : Except Breakdown Path) : List Path :=
  path.toOption.toList

/-- The paths that a configuration is about. -/
def interestsIn (env : Environment) (a : Arguments) (project : Project) (c : Config) : List Path :=
  let fragments := match c.fragmentsFile.bind Json.given? with
    | some v => known (Config.pathOf v)
    | none => []
  known (target a c project) ++ known (c.backupsPath env) ++ fragments

/-- The paths that arguments are about. -/
def interestsOf (env : Environment) (a : Arguments) (d : Disk) : List Path :=
  let named := match env.trimmed? Environment.rootVariable with
    | some t => known (env.path t)
    | none => []
  let further := match Project.find env d none with
    | .error _ => []
    | .ok project =>
      configPath a project ::
        match (Config.load env d (configPath a project)).bind (settle a) with
        | .ok (.ok c) => interestsIn env a project c
        | _ => []
  landmarks d.here ++ named ++ further

/-- The paths that a command line is about. -/
def interests (env : Environment) (words : List Text) (d : Disk) : List Path :=
  match Arguments.ofWords (words.dropWhile isVerbosity) with
  | .error _ => []
  | .ok a => interestsOf env a d

end CommandLine

end Graft

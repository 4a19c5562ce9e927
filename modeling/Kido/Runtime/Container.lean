import Kido.Layout.Claims
import Kido.Wire.Decode
import Mathlib.Data.List.Infix

set_option autoImplicit false

namespace Kido.Runtimes

open Kido.Shared (isWhitespace)
open Kido.Framing (Bytes fromUtf8Lossy)

inductive Exit where
  | exited (code : Int32)
  | signaled (signal : Int32)
deriving DecidableEq

structure Outcome where
  exit : Exit
  stdout : Bytes
  tail : Bytes

structure Launch where
  program : String
  args : List String
  env : List Bytes

inductive Next where
  | run (launch : Launch)
  | up
  | fail (message : String)

structure Version where
  protocol : String
  vt : String
  build : String
deriving DecidableEq

structure Mounted where
  destination : String
  source : String
deriving DecidableEq

structure Inspected where
  state : String
  mounts : List Mounted
deriving DecidableEq

-- What the server is built as and runs on, and how it reads JSON.
structure Host where
  linux : Bool
  arch : String
  version : Version
  readVersion : Bytes → Option Version
  readApple : Bytes → Option (List Inspected)
  readPodman : Bytes → Option (List Inspected)
  -- A text as `Debug` shows it.
  quoted : String → String

-- What the system answers while a step is handled. Paths are their texts.
structure World where
  program : String → Option String
  canonical : String → Option String
  exists_ : String → Bool
  -- The layouts that the executable may stand in.
  installed : String → String → List String

structure RuntimeKey where
  name : String
  session : Option Nat

def RuntimeKey.tag (key : RuntimeKey) : String :=
  match key.session with
  | some id => s!"session_{id}-{key.name}"
  | none => key.name

def RuntimeKey.tagArg (key : RuntimeKey) : Option String := key.session.map fun _ => key.tag

structure Ctx where
  key : RuntimeKey
  env : List Bytes
  socket : String
  root : String
  exe : String

def join (directory name : String) : String :=
  if directory = "" then name
  else if directory.toList.getLast? = some '/' then directory ++ name
  else directory ++ "/" ++ name

def Ctx.directory (cx : Ctx) : String := join cx.root cx.key.tag

def Ctx.ioDirectory (cx : Ctx) : String := join cx.directory "io"

def Ctx.controlPath (cx : Ctx) : String := join cx.directory "ctl"

inductive Component where
  | root
  | current
  | parent
  | normal (name : List Char)
deriving DecidableEq

-- Empty names and a dot that is not the first are no components.
def components (path : String) : List Component :=
  let parts := path.toList.splitOn '/'
  let absolute := path.toList.head? = some '/'
  let first := if absolute then [Component.root] else if parts.head? = some ['.'] then [.current] else []
  first ++ (parts.filter fun part => part ≠ [] && part ≠ ['.']).map fun part =>
    if part = ['.', '.'] then .parent else .normal part

-- Paths are the same when their components are.
def samePath (first second : String) : Bool := components first == components second

def trim (text : List Char) : List Char := ((text.dropWhile isWhitespace).reverse.dropWhile isWhitespace).reverse

def trimmed (bytes : Bytes) : String := String.ofList (trim (fromUtf8Lossy bytes).toList)

def contains (text part : String) : Bool := decide (part.toList <:+: text.toList)

-- The last line with something on it.
def lastLine (bytes : Bytes) : Option String :=
  let lines := ((fromUtf8Lossy bytes).toList.splitOn '\n').map trim
  ((lines.filter fun line => line ≠ []).getLast?).map String.ofList

def exitText (step : String) : Exit → String
  | .exited code => s!"the {step} step exited with status {code}"
  | .signaled signal => s!"the {step} step ended with signal {signal}"

namespace Outcome

def ok (out : Outcome) : Bool := out.exit = .exited 0

def failure (out : Outcome) (step : String) : String := (lastLine out.tail).getD (exitText step out.exit)

end Outcome

def protocolMajor : List Char := ['1']

-- The protocol is of this major version and the terminals are the same.
def checkVersion (host : Host) (other : Version) : Bool :=
  let protocol := other.protocol.toList
  let major := protocol.takeWhile (· ≠ '.')
  let minor := protocol.drop (major.length + 1)
  let compatible := '.' ∈ protocol && major = protocolMajor && minor ≠ [] && minor.all Char.isDigit
  compatible && other.vt = host.version.vt

def showVersion (version : Version) : String := s!"{version.build} (protocol {version.protocol}, terminal {version.vt})"

def versionNext (host : Host) (name : String) (out : Outcome) : Next :=
  if out.ok then
    match host.readVersion out.stdout with
    | none => .fail s!"ko version printed no version in runtime {name}"
    | some inner =>
      if checkVersion host inner then .up
      else .fail s!"ko in runtime {name} is {showVersion inner}, but this server is {showVersion host.version}"
  else if out.exit = .exited 127 || contains (fromUtf8Lossy out.tail) "failed to find target executable" then
    .fail s!"ko is not installed in runtime {name}"
  else .fail (out.failure "version")

end Kido.Runtimes

namespace Kido.Runtimes

inductive Source where
  -- A container that ko runs and owns.
  | image (image : String)
  -- A container that the user made and manages.
  | container (name : String)
deriving DecidableEq

structure Volume where
  host : String
  runtime : String
  readOnly : Bool

inductive Ko where
  | shipped
  | path
  | mount (dir : String)

structure Options where
  from_ : Source
  volumes : List Volume
  user : Option String
  runArgs : List String
  init : List String
  ko : Ko

inductive Engine where
  | apple (container : Option String) (sshAgent : Bool) (options : Options)
  | podman (podman : Option String) (options : Options)

def Engine.options : Engine → Options
  | .apple _ _ options => options
  | .podman _ options => options

inductive Cleanup where
  | stop
  | delete

namespace Container

inductive Stage where
  | system
  | deleteStale (image : String)
  | inspect
  | start
  | run
  | version
deriving DecidableEq

inductive Platform where
  | appleVm
  | linux
deriving DecidableEq

structure Facts where
  program : String
  inspect : List String
  missingExit : Exit
  missingText : String
  delete : String
  platform : Platform

def apple : Facts := ⟨"container", ["inspect"], .exited 1, "not found", "delete", .appleVm⟩

def podman : Facts := ⟨"podman", ["container", "inspect"], .exited 125, "no such container", "rm", .linux⟩

def facts : Engine → Facts
  | .apple .. => apple
  | .podman .. => podman

def decode (host : Host) : Engine → Outcome → Option (List Inspected)
  | .apple .., out => host.readApple out.stdout
  | .podman .., out => host.readPodman out.stdout

def runDir : String := "/run/ko"

def socket : String := "/run/ko/socket"

def mountDir : String := "/opt/ko"

def supported (host : Host) (facts : Facts) : Except String Unit :=
  if facts.platform = .linux ∧ host.linux = false then .error "the podman kind runs only on a Linux server" else .ok ()

def target (key : RuntimeKey) (settings : Engine) : String :=
  match settings.options.from_ with
  | .image _ => s!"ko-{key.tag}"
  | .container container => container

def inspectArgs (key : RuntimeKey) (settings : Engine) : List String := (facts settings).inspect ++ [target key settings]

def missing (facts : Facts) (out : Outcome) : Bool :=
  out.exit = facts.missingExit && contains (Framing.fromUtf8Lossy out.tail) facts.missingText

-- What is mounted of the runtime, and where.
def socketMount (settings : Engine) (cx : Ctx) : String × String :=
  match (facts settings).platform with
  | .appleVm => (cx.socket, socket)
  | .linux => (cx.ioDirectory, runDir)

def shipped (host : Host) (facts : Facts) : Except String String :=
  match facts.platform with
  | .appleVm => .ok "share/ko/linux/aarch64"
  | .linux =>
    if host.arch ∈ ["aarch64", "x86_64"] then .ok s!"share/ko/linux/{host.arch}"
    else .error s!"the podman kind has no shipped ko for architecture {host.arch}"

def failure (facts : Facts) (out : Outcome) (step : String) : Next := .fail (out.failure s!"{facts.program} {step}")

def program (settings : Engine) : String :=
  let custom :=
    match settings with
    | .apple container .. => container
    | .podman podman _ => podman
  custom.getD (facts settings).program

def binary (settings : Engine) (world : World) : Except String String :=
  match world.program (program settings) with
  | some path => .ok path
  | none => .error s!"{program settings}: command not found on the PATH of the server"

def launch (settings : Engine) (world : World) (cx : Ctx) (args : List String) : Except String Launch := do
  return ⟨← binary settings world, args, cx.env⟩

def innerKo (settings : Engine) : String :=
  match settings.options.ko with
  | .path => "ko"
  | _ => "/opt/ko/bin/ko"

def mount (host : Host) (settings : Engine) (world : World) (cx : Ctx) : Except String (Option String) :=
  match settings.options.ko with
  | .path => .ok none
  | .mount dir => .ok (some dir)
  | .shipped => do
    let layouts := world.installed cx.exe (← shipped host (facts settings))
    match layouts.find? fun layout => world.exists_ (join layout "bin/ko") with
    | some layout => return some layout
    | none =>
      let place := layouts.head?.getD cx.exe
      throw s!"the static Linux ko is missing at {place}: run make build-linux"

def execLaunch (settings : Engine) (world : World) (cx : Ctx) : Except String Launch :=
  let user :=
    match settings.options.user with
    | some user => ["-u", user]
    | none => []
  launch settings world cx (["exec", "-i"] ++ user ++ [target cx.key settings, innerKo settings, "enter", "--exec"])

def first (host : Host) (settings : Engine) (world : World) (cx : Ctx) : Except String Launch := do
  supported host (facts settings)
  let args :=
    match (facts settings).platform with
    | .appleVm => ["system", "status"]
    | .linux => inspectArgs cx.key settings
  launch settings world cx args

def watch (settings : Engine) (world : World) (cx : Ctx) : Except String Launch :=
  launch settings world cx ["exec", "-i", target cx.key settings, innerKo settings, "enter", "--watch"]

def cleanup (host : Host) (settings : Engine) (world : World) (cx : Ctx) (what : Cleanup) : Option Launch := do
  (supported host (facts settings)).toOption
  match settings.options.from_ with
  | .container _ => none
  | .image _ =>
    let args :=
      match what with
      | .stop => ["stop", target cx.key settings]
      | .delete => [(facts settings).delete, "--force", target cx.key settings]
    (launch settings world cx args).toOption

def step (settings : Engine) (world : World) (cx : Ctx) (args : List String) : Next :=
  match launch settings world cx args with
  | .ok launch => .run launch
  | .error message => .fail message

def run (host : Host) (settings : Engine) (image : String) (world : World) (cx : Ctx) : Next :=
  match mount host settings world cx with
  | .error message => .fail message
  | .ok mount =>
    let (source, destination) := socketMount settings cx
    let linux := if (facts settings).platform = .linux then ["--security-opt", "label=disable", "--http-proxy=false"] else []
    let volumes := settings.options.volumes.flatMap fun volume =>
      let access := if volume.readOnly then ":ro" else ""
      ["-v", s!"{volume.host}:{volume.runtime}{access}"]
    let layout :=
      match mount with
      | some dir => ["--mount", s!"type=bind,source={dir},target={mountDir},readonly"]
      | none => []
    let agent :=
      match settings with
      | .apple _ true _ => ["--ssh"]
      | _ => []
    step settings world cx
      (["run", "-d", "--name", target cx.key settings, "--init"] ++ linux ++ ["-v", s!"{source}:{destination}"] ++ volumes ++
        layout ++ agent ++ settings.options.runArgs ++ [image] ++ settings.options.init)

def versionArgs (settings : Engine) (cx : Ctx) : List String := ["exec", target cx.key settings, innerKo settings, "version"]

-- Whether a container of the user has the socket's directory, or the socket, where the runtime looks for it.
def shared (settings : Engine) (world : World) (cx : Ctx) (found : Inspected) : Bool :=
  let (source, destination) := socketMount settings cx
  let real := (world.canonical source).getD ""
  found.mounts.any fun mounted =>
    mounted.destination = destination && (samePath mounted.source source || samePath mounted.source real)

def notShared (settings : Engine) (cx : Ctx) : String :=
  let (source, destination) := socketMount settings cx
  let target := target cx.key settings
  s!"container {target} does not mount the socket of runtime {cx.key.name}: create it with -v {source}:{destination}"

-- The stage that follows, and what is run or how it ends.
def inspected (host : Host) (settings : Engine) (stage : Stage) (fresh : Bool) (world : World) (cx : Ctx) (out : Outcome) : Stage × Next :=
  let facts := facts settings
  let target := target cx.key settings
  -- The container is there.
  let started (found : Inspected) : Stage × Next :=
    if found.state = "running" then (.version, step settings world cx (versionArgs settings cx))
    else (.start, step settings world cx ["start", target])
  let shown : Stage × Next :=
    if !out.ok then (stage, failure facts out "inspect")
    else
      match ((decode host settings out).getD []).head? with
      | none => (stage, .fail s!"{facts.program} inspect printed no container")
      | some found =>
        match settings.options.from_ with
        | .container _ => if shared settings world cx found then started found else (stage, .fail (notShared settings cx))
        | .image image =>
          if fresh then (.deleteStale image, step settings world cx [facts.delete, "--force", target]) else started found
  match settings.options.from_ with
  | .image image => if missing facts out then (.run, run host settings image world cx) else shown
  | .container _ => shown

def next (host : Host) (settings : Engine) (stage : Stage) (fresh : Bool) (world : World) (cx : Ctx) (out : Outcome) : Stage × Next :=
  let facts := facts settings
  match stage with
  | .system =>
    if out.ok then (.inspect, step settings world cx (inspectArgs cx.key settings))
    else (stage, .fail "container system is not running: run container system start")
  | .inspect => inspected host settings stage fresh world cx out
  | .deleteStale image => if out.ok then (.run, run host settings image world cx) else (stage, failure facts out "delete")
  | .start => if out.ok then (.version, step settings world cx (versionArgs settings cx)) else (stage, failure facts out "start")
  | .run => if out.ok then (.version, step settings world cx (versionArgs settings cx)) else (stage, failure facts out "run")
  | .version => (stage, versionNext host cx.key.name out)

end Container

end Kido.Runtimes

import Kido.Runtime.Container

set_option autoImplicit false

namespace Kido.Runtimes

structure Ssh where
  destination : String
  sshArgs : List String
  dir : Option String

namespace Remote

inductive Stage where
  | check
  | master
  | prepare
  | cancel
  | forward
deriving DecidableEq

structure Link where
  stage : Stage
  dir : Option String
  adopted : Bool
deriving DecidableEq

def Link.new : Link := ⟨.check, none, false⟩

def sunPathMax : Nat := 103

-- A slash, the name of the control socket, a dot and the characters that ssh puts behind it.
def masterSuffix : Nat := 1 + 3 + 1 + 16

def masterOptions : List String := ["ExitOnForwardFailure=yes", "ServerAliveInterval=5", "ServerAliveCountMax=3"]

def quote (word : String) : String :=
  String.ofList (['\''] ++ (word.toList.flatMap fun char => if char = '\'' then ['\'', '\\', '\'', '\''] else [char]) ++ ['\''])

def hasSyntax (text : String) : Bool := text.toList.any fun char => char = ':' || char = '%'

def remoteDirValid (text : String) : Bool :=
  text.toList.head? = some '/' && !hasSyntax text && !text.toList.any fun char => char = '\n' || char = '\x00'

def noRemoteKo (host : String) : String :=
  s!"ko is not on the PATH of non-interactive ssh commands on {host}; " ++
    "put the line that adds it to PATH (for Homebrew: eval \"$(brew shellenv)\" with brew's full path) in ~/.bashrc " ++
    "before its non-interactive return, or in ~/.zshenv"

def forwardingRefused (host : String) : String :=
  s!"{host} refuses unix-socket forwarding, and ko needs it (sshd AllowStreamLocalForwarding)"

-- `query_failure`, as the message that `prepared` makes of it.
def queryFailure (destination : String) (out : Outcome) : Option String :=
  let message := trimmed out.tail
  match out.exit with
  | .exited code =>
    if code = 0 then none
    else if code = 127 then some (noRemoteKo destination)
    else if code = 255 then some (if message = "" then s!"ssh to {destination} failed" else message)
    else some s!"cannot prepare {destination}: {message} (exit {code})"
  | .signaled signal => some s!"ssh to {destination} died of signal {signal}"

def launch (world : World) (cx : Ctx) (args : List String) : Except String Launch :=
  match world.program "ssh" with
  | some program => .ok ⟨program, args, cx.env⟩
  | none => .error "ssh: command not found"

def through (ctl : String) : List String :=
  ["-S", ctl, "-o", "ControlMaster=no", "-o", "BatchMode=yes", "-o", "ProxyCommand=/usr/bin/false", "-o", "RemoteCommand=none"]

def passenger (ssh : Ssh) (world : World) (cx : Ctx) (remote : List String) : Except String Launch :=
  launch world cx (["-T"] ++ through cx.controlPath ++ ["--", ssh.destination] ++ remote)

def operation (ssh : Ssh) (world : World) (cx : Ctx) (operation : List String) : Except String Launch :=
  launch world cx (["-S", cx.controlPath] ++ operation ++ [ssh.destination])

def checkPaths (cx : Ctx) : Except String Unit :=
  let shown := cx.directory
  if sunPathMax < shown.utf8ByteSize + masterSuffix then
    .error s!"runtime control path under {shown} exceeds {sunPathMax} bytes; set KO_STATE_DIR to a shorter path"
  else if hasSyntax shown then
    .error s!"runtime directory {shown} contains a colon or a percent sign, which ssh reads as syntax"
  else .ok ()

def check (ssh : Ssh) (world : World) (cx : Ctx) : Except String Launch := operation ssh world cx ["-O", "check"]

def first (ssh : Ssh) (world : World) (cx : Ctx) : Except String Launch := do
  checkPaths cx
  check ssh world cx

def master (ssh : Ssh) (world : World) (cx : Ctx) : Except String Launch :=
  let options := (["ControlMaster=yes", "ControlPersist=yes"] ++ masterOptions).flatMap fun option => ["-o", option]
  launch world cx
    (["-M", "-N", "-f", "-n", "-o", "BatchMode=yes", "-o", s!"ControlPath={cx.controlPath}"] ++ options ++ ssh.sshArgs ++ [ssh.destination])

def prepare (ssh : Ssh) (world : World) (cx : Ctx) : Except String Launch :=
  let dir :=
    match ssh.dir with
    | some dir => ["--dir", dir]
    | none => []
  let tag :=
    match cx.key.tagArg with
    | some tag => ["--tag", tag]
    | none => []
  passenger ssh world cx ((["ko", "enter", "--prepare"] ++ dir ++ ["--runtime", cx.key.name] ++ tag).map quote)

-- The directory on the first line, and ko's version on the second.
def prepared (host : Host) (destination : String) (out : Outcome) : Except String (String × Framing.Bytes) :=
  match queryFailure destination out with
  | some message => .error message
  | none =>
    let line := out.stdout.takeWhile (· ≠ 10)
    let rest := out.stdout.drop (line.length + 1)
    let path := trimmed line
    if remoteDirValid path then .ok (path, rest)
    else
      let shown := host.quoted (Framing.fromUtf8Lossy line)
      .error s!"{destination} reported an invalid directory {shown}"

def forward (ssh : Ssh) (link : Link) (world : World) (cx : Ctx) (name : String) : Except String Launch :=
  match link.dir with
  | none => .error "the remote directory is not known"
  | some dir => operation ssh world cx ["-O", name, "-R", s!"{dir}/socket:{cx.socket}"]

def launched : Except String Launch → Next
  | .ok launch => .run launch
  | .error message => .fail message

def next (host : Host) (ssh : Ssh) (link : Link) (world : World) (cx : Ctx) (out : Outcome) : Link × Next :=
  match link.stage with
  | .check =>
    if out.ok then ({ link with adopted := true, stage := .prepare }, launched (prepare ssh world cx))
    -- The control socket that is left is removed here.
    else ({ link with adopted := false, stage := .master }, launched (master ssh world cx))
  | .master =>
    if out.ok then ({ link with stage := .prepare }, launched (prepare ssh world cx)) else (link, .fail (out.failure "ssh master"))
  | .prepare =>
    match prepared host ssh.destination out with
    | .error message => (link, .fail message)
    | .ok (dir, version) =>
      match versionNext host cx.key.name { out with stdout := version } with
      | .fail message => (link, .fail message)
      | _ =>
        -- An adopted master may still hold this forward, and ssh skips an identical one.
        if link.adopted then
          let link := { link with dir := some dir, stage := .cancel }
          (link, launched (forward ssh link world cx "cancel"))
        else
          let link := { link with dir := some dir, stage := .forward }
          (link, launched (forward ssh link world cx "forward"))
  | .cancel =>
    let link := { link with stage := .forward }
    (link, launched (forward ssh link world cx "forward"))
  | .forward =>
    if out.ok then (link, .up)
    else
      let message := trimmed out.tail
      (link, .fail (if contains message "forwarding" then forwardingRefused ssh.destination
        else s!"ssh cannot forward the socket: {message}"))

end Remote

end Kido.Runtimes

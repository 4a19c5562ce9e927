import Kido.Runtime.Ssh
import Kido.Shared.Processes

set_option autoImplicit false

namespace Kido.Attach

open Kido.Runtimes (Exit join trimmed)
open Kido.Framing (Bytes fromUtf8Lossy)
open Kido.Children (Processes)

-- Instants are in milliseconds.
def firstMasterWithin : Nat := 60000

def masterWithin : Nat := 15000

def commandWithin : Nat := 20000

def tick : Nat := 5

inductive Error where
  | ssh (message : String)
  | master (host : String) (log : String)
  | timeout (host : String)
  | noRemoteKo (host : String)
  | query (host : String) (message : String)
  | forward (message : String)
deriving DecidableEq

inductive Progress where
  | pending (until_ : Nat)
  | up
deriving DecidableEq

inductive Stage where
  | down
  | master (deadline : Nat)
  | query (child : Nat) (deadline : Nat)
  | forward (child : Nat) (deadline : Nat)
  | cancel (child : Nat) (deadline : Nat)
  | up
deriving DecidableEq

inductive Role where
  | master
  | query
  | forward (socket : String)
  | cancel (socket : String)
deriving DecidableEq

structure Remote where
  host : String
  dir : String
  remoteSocket : Option String
  forwardedSocket : Option String
  master : Option Nat
  stage : Stage
  interactive : Bool
  processes : Processes Role Exit

inductive QueryFailure where
  | noKo
  | ssh (message : String)
  | exit (code : Int32) (message : String)
  | signal (signal : Int32)

def queryFailure (exit : Exit) (stderr : Bytes) : Option QueryFailure :=
  let message := trimmed stderr
  match exit with
  | .exited code =>
    if code = 0 then none
    else if code = 127 then some .noKo
    else if code = 255 then some (.ssh message)
    else some (.exit code message)
  | .signaled signal => some (.signal signal)

def remoteSocket (quoted : String → String) (host : String) (exit : Exit) (stdout stderr : Bytes) : Except Error String :=
  match queryFailure exit stderr with
  | none =>
    let path := trimmed stdout
    if Runtimes.Remote.remoteDirValid path then .ok path
    else
      let shown := quoted path
      .error (.query host s!"invalid socket path {shown}")
  | some .noKo => .error (.noRemoteKo host)
  | some (.ssh message) => .error (.ssh message)
  | some (.exit code message) => .error (.query host s!"{message} (exit {code})")
  | some (.signal signal) => .error (.query host s!"ssh died of signal {signal}")

def masterArgs (ctl host : String) (batch : Bool) : List String :=
  let options := (Runtimes.Remote.masterOptions ++ ["StreamLocalBindUnlink=yes"]).flatMap fun option => ["-o", option]
  let quiet := if batch then ["-o", "BatchMode=yes"] else []
  ["-M", "-N", "-T", "-o", s!"ControlPath={ctl}", "-o", "ControlMaster=yes", "-o", "ControlPersist=no"] ++ options ++ quiet ++ [host]

def controlArgs (ctl : String) (operation : List String) (host : String) : List String := ["-S", ctl] ++ operation ++ [host]

def remoteKoArgs (ctl host : String) (ko : List String) : List String :=
  controlArgs ctl ["-T", "-o", "RemoteCommand=none", "-o", "BatchMode=yes"] host ++ ["ko"] ++ ko

structure Answers where
  now : Nat
  set : Nat
  look : Nat → Option Exit
  ctl : Bool
  refused : Option String
  stopped : Option Exit
  killed : Exit
  out : Bytes
  err : Bytes
  log : String
  quoted : String → String

def Stage.child : Stage → Option Nat
  | .query child _ | .forward child _ | .cancel child _ => some child
  | _ => none

namespace Remote

def new (host dir : String) : Remote := ⟨host, dir, none, none, none, .down, true, .new⟩

def socket (remote : Remote) : String := join remote.dir "socket"

def ctl (remote : Remote) : String := join remote.dir "ctl"

-- `waitpid` that does not block: only of a child that was not waited for before can it tell anything.
def tryWait (remote : Remote) (answers : Answers) (pid : Nat) : Option (Option Exit) × Remote :=
  let looked := answers.look pid
  if remote.processes.status pid = .alive then (some looked, { remote with processes := remote.processes.waited pid looked })
  else (none, { remote with processes := remote.processes.waited pid none })

def kill (remote : Remote) (answers : Answers) (pid : Nat) : Remote :=
  { remote with processes := remote.processes.kill pid answers.killed }

def masterRunning (remote : Remote) (answers : Answers) : Bool × Remote :=
  match remote.master with
  | none => (false, remote)
  | some master =>
    match remote.tryWait answers master with
    | (some none, remote) => (true, remote)
    | (_, remote) => (false, { remote with master := none })

def lost (remote : Remote) (answers : Answers) : Bool × Remote :=
  if remote.stage = .up then
    let (running, remote) := remote.masterRunning answers
    (!running, remote)
  else (false, remote)

def reconnect (remote : Remote) (answers : Answers) : Remote :=
  let (running, remote) := { remote with remoteSocket := none }.masterRunning answers
  { remote with stage := if running then .master (answers.set + masterWithin) else .down }

def spawnSsh (remote : Remote) (answers : Answers) (role : Role) (args : List String) : Except Error (Nat × Remote) :=
  match answers.refused with
  | some message => .error (.ssh message)
  | none => .ok (remote.processes.next, { remote with processes := remote.processes.spawn role args })

-- It is asked to end, looked at until it has ended or the time is over, and then killed.
def stopMaster (remote : Remote) (answers : Answers) : Remote :=
  match remote.master with
  | none => remote
  | some master =>
    let remote := { remote with master := none, processes := remote.processes.signal master }
    match answers.stopped with
    | some exit => { remote with processes := remote.processes.waited master (some exit) }
    | none => { remote with processes := remote.processes.waited master none }.kill answers master

def startMaster (remote : Remote) (answers : Answers) : Except Error Unit × Remote :=
  let remote := { remote with remoteSocket := none, forwardedSocket := none }
  match remote.spawnSsh answers .master (masterArgs remote.ctl remote.host !remote.interactive) with
  | .error error => (.error error, remote)
  | .ok (master, remote) =>
    let within := if remote.interactive then firstMasterWithin else masterWithin
    (.ok (), { remote with master := some master, stage := .master (answers.set + within) })

def retryForward (remote : Remote) (answers : Answers) (error : Error) : Except Error Progress × Remote :=
  (.error error, remote.reconnect answers)

def startStep (remote : Remote) (answers : Answers) : Except Error Progress × Remote :=
  let deadline := answers.set + commandWithin
  let (role, args) : Role × List String :=
    match remote.remoteSocket with
    | some socket => (.forward socket, controlArgs remote.ctl ["-O", "forward", "-L", s!"{remote.socket}:{socket}"] remote.host)
    | none => (.query, remoteKoArgs remote.ctl remote.host ["server", "--print-socket", "--ensure"])
  match remote.spawnSsh answers role args with
  | .error error => remote.retryForward answers error
  | .ok (child, remote) =>
    let stage := if role = .query then .query child deadline else .forward child deadline
    (.ok (.pending deadline), { remote with stage := stage })

-- The query told a socket. An old forward is cancelled before another one is made.
def queried (remote : Remote) (answers : Answers) (found : String) : Except Error Progress × Remote :=
  if remote.forwardedSocket = some found then (.ok .up, { remote with stage := .up })
  else
    let remote := { remote with remoteSocket := some found }
    match remote.forwardedSocket with
    | some old =>
      let remote := { remote with forwardedSocket := none }
      let args := controlArgs remote.ctl ["-O", "cancel", "-L", s!"{remote.socket}:{old}"] remote.host
      match remote.spawnSsh answers (.cancel old) args with
      | .error error => remote.retryForward answers error
      | .ok (child, remote) =>
        (.ok (.pending (answers.now + commandWithin)), { remote with stage := .cancel child (answers.now + commandWithin) })
    | none => remote.startStep answers

def stepped (remote : Remote) (answers : Answers) (exit : Exit) : Except Error Progress × Remote :=
  match remote.stage with
  | .query _ _ =>
    match Attach.remoteSocket answers.quoted remote.host exit answers.out answers.err with
    | .error error => remote.retryForward answers error
    | .ok found => remote.queried answers found
  | stage =>
    if exit = .exited 0 then
      match stage with
      | .cancel _ _ => remote.startStep answers
      | _ =>
        (.ok .up, { remote with forwardedSocket := remote.remoteSocket, remoteSocket := none, stage := .up, interactive := false })
    else remote.retryForward answers (.forward (trimmed answers.err))

def step (remote : Remote) (answers : Answers) (child deadline : Nat) : Except Error Progress × Remote :=
  match remote.tryWait answers child with
  | (some (some exit), remote) => remote.stepped answers exit
  | (some none, remote) =>
    if answers.now < deadline then (.ok (.pending deadline), remote)
    else (remote.kill answers child).retryForward answers (.timeout remote.host)
  | (none, remote) => remote.retryForward answers (.ssh "ssh was reaped")

def connecting (remote : Remote) (answers : Answers) (deadline : Nat) : Except Error Progress × Remote :=
  let (running, remote) := remote.masterRunning answers
  if !running then (.error (.master remote.host answers.log), { remote with stage := .down })
  else if answers.ctl then remote.startStep answers
  else if deadline ≤ answers.now then (.error (.timeout remote.host), { remote.stopMaster answers with stage := .down })
  else (.ok (.pending (min deadline (answers.now + tick))), remote)

def noticed (remote : Remote) (answers : Answers) : Remote :=
  if remote.stage = .up then
    let (running, remote) := remote.masterRunning answers
    if running then remote else { remote with stage := .down }
  else remote

def advance (remote : Remote) (answers : Answers) : Except Error Progress × Remote :=
  let remote := remote.noticed answers
  match remote.stage with
  | .up => (.ok .up, remote)
  | .down =>
    match remote.startMaster answers with
    | (.error error, remote) => (.error error, remote)
    | (.ok (), remote) => (.ok (.pending (answers.now + tick)), remote)
  | .master deadline => remote.connecting answers deadline
  | .query child deadline | .forward child deadline | .cancel child deadline => remote.step answers child deadline

def drop (remote : Remote) (answers : Answers) : Remote :=
  let remote :=
    match remote.stage.child with
    | some child => remote.kill answers child
    | none => remote
  remote.stopMaster answers

end Remote

end Kido.Attach

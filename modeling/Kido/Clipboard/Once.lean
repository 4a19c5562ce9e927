import Kido.Clipboard.Answered

set_option autoImplicit false

namespace Kido.Clipboards

open Kido.Shared Kido.Framing World

namespace World

variable {world : World}

end World

def kept : List Op :=
  [.programReads ⟨0⟩, .takes ⟨0⟩, .dispatches ⟨0⟩ [⟨0, true, true⟩] false]

def refusal : List Op := [.programReads ⟨0⟩, .takes ⟨0⟩, .dispatches ⟨0⟩ [] false, .delivers ⟨0⟩]

-- The pane with its first read open, when it has read so many times.
def waiting (reads : Nat) : Pane :=
  ⟨true, ⟨[(0, 0)], reads, reads⟩, ⟨[(⟨0⟩, 0)], reads⟩, [], [], []⟩

def second (reads : Nat) (up events : List Ask) (down : List Frame) : Pane :=
  ⟨true, ⟨[(0, 0), (reads, reads)], (reads + 1) % 2 ^ 64, reads + 1⟩,
    ⟨[(⟨0⟩, 0), (Req.ofSerial reads, reads)], (reads + 1) % 2 ^ 64⟩, up, events, down⟩

-- The world that has one read open and has refused so many others.
def refusing (refused : Nat) : World := run World.step World.start (kept ++ (List.replicate refused refusal).flatten)

end Kido.Clipboards

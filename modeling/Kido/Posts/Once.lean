import Kido.Posts.Sound
import Mathlib.Algebra.Order.Ring.Nat

set_option autoImplicit false

namespace Kido.Posting

open Kido.Mailing Kido.Shared

def unread (conns : List Conn) : Nat := (conns.map fun conn => conn.buffered.length).sum

def Item.weight : Item → Nat
  | .answer _ _ | .removePane _ => 2
  | .call _ => 3
  | _ => 1

namespace World

-- What is left to do, the inputs aside: a post that is held may have to be answered.
def load (world : World) : Nat := 3 * world.waits.length + (world.work.map Item.weight).sum

variable {world : World}

end World

end Kido.Posting

namespace Kido.Posting

open Kido.Mailing Kido.Shared

def pane : PaneId := ⟨1⟩

def posted (id : MessageId) : Input := .post ⟨pane, id, .user, none, .message ⟨"x", none⟩, false⟩

-- A pane with a message stream, and a message that is written to it.
def heldPost : List Op :=
  [.call (.birth pane), .accept, .accept, .accept, .receive 0 (.messages pane false), .go, .go,
    .receive 1 (posted "message-1"), .go]

-- A pane is removed while it holds two posts, and what waits behind them on their connections opens its stream again and
-- posts to it.
def removal : List Op :=
  heldPost ++ [.receive 2 (posted "message-2"), .go, .receive 1 (.messages pane false), .go,
    .receive 2 (posted "message-3"), .go, .call (.remove pane)] ++ List.replicate 7 .go

end Kido.Posting

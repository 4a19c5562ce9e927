import Kido.Layout.Ids

set_option autoImplicit false

namespace Kido.Sidebar

open Kido.Tiling

structure Position where
  session : SessionId
  window : WindowId
  pane : PaneId
deriving DecidableEq

-- `P` is what is read of a pane: the rows and the notices read different fields of it.
structure ItemOf (P N : Type) where
  pane : P
  window : WindowId
  children : List N
  runtime : Option String

-- A group holds the panes of one window that stand side by side.
inductive NodeOf (P : Type) where
  | window (id : WindowId) (children : List (ItemOf P (NodeOf P)))
  | item (item : ItemOf P (NodeOf P))

structure SessionNodesOf (P : Type) where
  id : SessionId
  name : String
  nodes : List (NodeOf P)

structure SnapshotOf (P : Type) where
  client : Position
  serverInstance : String
  sessions : List (SessionNodesOf P)

end Kido.Sidebar

import Kido.Layout.Handed
import Kido.Layout.Sized
import Kido.Client.Edit
import Kido.Client.Selections
import Kido.Layout.Remove
import Kido.Conn.Output
import Kido.Conn.Stalls
import Kido.Ring.Handshake
import Kido.Inbox.Delivered
import Kido.Wire.Requests
import Kido.Wire.Reports
import Kido.Wire.Readers
import Kido.Pane.InOrder
import Kido.Exec.Exact
import Kido.State.Within
import Kido.Asks.Once
import Kido.Delivery.Delivered
import Kido.Clipboard.Once
import Kido.Clipboard.Views
import Kido.Posts.Once
import Kido.Mirror.Shows
import Kido.Mirror.Bookkeeping
import Kido.Embed.Fed
import Kido.Limiter.Fair
import Kido.Reach.Agree
import Kido.Layout.Stable
import Kido.Layout.Without
import Kido.Layout.Fair
import Kido.Client.Divider
import Kido.Client.Evened
import Kido.Client.Grown
import Kido.Http.Settled
import Kido.Route.Api
import Kido.Status.Acknowledged
import Kido.Status.Logged
import Kido.Status.Steady
import Kido.Vt.Cut
import Kido.Wire.Base64
import Kido.Agent.Variables
import Kido.Agent.HostPath
import Kido.Agent.Mention
import Kido.Client.Outline
import Kido.Stop.Kept
import Kido.Sweep.Exact
import Kido.Sidebar.Rows
import Kido.Sidebar.Notices
import Kido.Sidebar.PaneGeometry
import Kido.Tui.Releases
import Kido.Config.Connection
import Kido.Config.Yaml
import Kido.Config.Tree
import Kido.Config.Tag
import Kido.Config.Trigger
import Kido.Copy.Row
import Kido.Copy.Mode
import Kido.Copy.Words
import Kido.Copy.Sound
import Kido.Tui.Geometry
import Kido.Tui.Walk
import Kido.Tui.Lines
import Kido.Tui.Neighbour
import Kido.Tui.Grips
import Kido.Event.Fires
import Kido.Event.Tokens
import Kido.Runtime.Owned
import Kido.Runtime.Enter
import Kido.Runtime.Paths
import Kido.Attach.Linked

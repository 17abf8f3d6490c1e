import Sews.Cpp.UnorderedMap
import Sews.Reactor.Epoll

/-!
# The connection manager

`architecture::connection::Manager` owns the channels of the accepted
connections under their descriptors, and the list of descriptors marked for
closure.  Marking only appends to the list: it does not look whether the
descriptor is there already.
-/

namespace Sews.Connection

open Cpp Sews.Reactor

structure Manager where
  channels : UnorderedMap Fd ChannelId := ∅
  closedChannels : List Fd := []

namespace Manager

/-- `Manager::add`, for the channel object `id` whose descriptor is `fd`. -/
def add (m : Manager) (fd : Fd) (id : ChannelId) : Manager :=
  { m with channels := m.channels.insert fd id }

/-- `Manager::remove`. -/
def remove (m : Manager) (fd : Fd) : Manager :=
  { m with closedChannels := m.closedChannels ++ [fd] }

/-- `Manager::count`. -/
def count (m : Manager) : Nat := UnorderedMap.size m.channels

end Manager
end Sews.Connection

import ViewerCircuit.Circuit.Basic

/-!
# Notices

The packets that it takes to tell a viewer something. The circuit adds what it knows itself: who the
viewer is, where it is, and how large a packet may be.
-/
namespace ViewerCircuit

namespace Circuit

def viewerIp (c : Circuit) : Ipv4 :=
  match c.remote.ip with
  | .v4 ip => ip
  | .v6 _ => .unspecified

def drafts (c : Circuit) : Notice → List Draft
  | .acks ids => [Outbound.acks ids]
  | .completePing pingId => [Outbound.completePing pingId]
  | .alert message => [Outbound.alert message]
  | .chat line => [Outbound.chat line]
  | .kick reason => [Outbound.kick {
      targetIp := c.viewerIp
      targetPort := c.remote.port
      agentId := c.viewer.agentId
      sessionId := c.viewer.sessionId
      reason }]
  | .logoutReply => [Outbound.logoutReply c.viewer.agentId c.viewer.sessionId]
  | .disableSimulator => [Outbound.disableSimulator]
  | .enableSimulator m => [Outbound.enableSimulator m]
  | .movementComplete lookAt regionHandle timestamp channelVersion =>
    [Outbound.movementComplete {
      agentId := c.viewer.agentId
      sessionId := c.viewer.sessionId
      position := c.startPosition
      lookAt
      regionHandle
      timestamp
      channelVersion }]
  | .terseAvatars regionHandle timeDilation avatars =>
    Outbound.terseAvatars c.config.maxPacketSize regionHandle timeDilation avatars
  | .tersePrims regionHandle timeDilation prims =>
    Outbound.tersePrims c.config.maxPacketSize regionHandle timeDilation prims
  | .killObjects localIds => Outbound.killObjects c.config.maxPacketSize localIds
  | .names entries => Outbound.names c.config.maxPacketSize entries
  | .viewerTime m => [Outbound.viewerTime m]

end Circuit
end ViewerCircuit

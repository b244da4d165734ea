/-
  THE PACKETS (`protocol/uni_lbs_protocol.h`, `new_elbs/new_elbs_protocol.h`) as wire types.

  A packet is its uri and the types of its members in order; `server_type` and `uri` come first on the
  wire and are not listed.  The member names of the source stand beside the types.
-/
import Turnserver.Base.Types

namespace Turnserver

/-- The members of a struct or packet from their list. -/
def Members.of : List Ty → Members
  | [] => .nil
  | t :: ts => .cons t (.of ts)

/-- `uint16_t` -/
abbrev Ty.uint16 : Ty := .scalar .uint16

/-- `uint32_t` -/
abbrev Ty.uint32 : Ty := .scalar .uint32

/-! ## `uni_lbs_protocol.h` -/

namespace Lbs

/-- The answer to the first request to join. -/
def kLbsJoinResUri : UInt16 := 1002

/-- The load, reported from time to time. -/
def kLbsPingUri : UInt16 := 1003

/-- The answer to a report of the load. -/
def kLbsPongUri : UInt16 := 1004

/-- All channels. -/
def kLbsFullChannelListUri : UInt16 := 1005

/-- One channel more or less. -/
def kLbsDeltaChannelListUri : UInt16 := 1006

/-- The request to join with details. -/
def kLbsJoinReq2Uri : UInt16 := 1007

/-- The answer to the request with details. -/
def kLbsJoinRes2Uri : UInt16 := 1008

/-- Numbers by their keys. -/
def DetailInfoMap : Ty := .map .uint32 .uint32

/-- Texts by their keys. -/
def DetailInfo2Map : Ty := .map .uint32 .string

/-- id, code -/
def LbsJoinRes : Ty := .packet kLbsJoinResUri (.of [.uint32, .uint32])

/-- id, service_name, port, detail -/
def LbsJoinReq2 : Ty := .packet kLbsJoinReq2Uri (.of [.uint32, .string, .uint16, DetailInfo2Map])

/-- id, code, detail -/
def LbsJoinRes2 : Ty := .packet kLbsJoinRes2Uri (.of [.uint32, .uint32, DetailInfo2Map])

/-- id, load_detail -/
def LbsPing : Ty := .packet kLbsPingUri (.of [.uint32, DetailInfoMap])

/-- id, load_detail -/
def LbsPong : Ty := .packet kLbsPongUri (.of [.uint32, DetailInfoMap])

/-- The channels of a service, with their names. -/
def AllChannelVector : Ty := .vector (.pair .uint32 .string)

/-- id, channels -/
def LbsFullChannelList : Ty := .packet kLbsFullChannelListUri (.of [.uint32, AllChannelVector])

/-- id, added, removed -/
def LbsDeltaChannelList : Ty :=
  .packet kLbsDeltaChannelListUri (.of [.uint32, AllChannelVector, AllChannelVector])

end Lbs

/-! ## `new_elbs_protocol.h` -/

namespace Elbs

/-- The request for an edge server, its members in network order (`ElbsUriType`). -/
def kRejoinRequestUri : UInt16 := 6

/-- The answer to a request for an edge server. -/
def kRejoinResponseUri : UInt16 := 7

/-- A message between a worker and its manager. -/
def kUapUri : UInt16 := 1000

/-- The server type of the edge load balancer. -/
def ELBS_SERVER_TYPE : UInt16 := 305

/-- The server type of workers and their manager. -/
def UAP_SERVER_TYPE : UInt16 := 1000

/-- json -/
def WorkerManagerComm : Ty := .packet kUapUri (.of [.string])

/-- ip (network order), port (host order) -/
def RejoinRequestProtocol : Ty := .packet kRejoinRequestUri (.of [.uint32, .uint16])

/-- code, ip (network order), port (host order) -/
def RejoinResponseProtocol : Ty := .packet kRejoinResponseUri (.of [.uint32, .uint32, .uint16])

end Elbs

end Turnserver

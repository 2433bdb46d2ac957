import CanbusAgent.Agent.Attribution
import CanbusAgent.Agent.Lifetimes
import CanbusAgent.Agent.Network
import CanbusAgent.Contracts.Errors
import CanbusAgent.Contracts.Outputs
import CanbusAgent.HalCom.DeadSocket
import CanbusAgent.HalCom.Emission
import CanbusAgent.HalCom.Filter
import CanbusAgent.HalCom.Link
import CanbusAgent.HalCom.Overrun
import CanbusAgent.HalCom.RemoteFrames
import CanbusAgent.HalCom.TimedRead
import CanbusAgent.HalCom.Transfer
import CanbusAgent.HalCom.TransmitId
import CanbusAgent.HalFile.Blocks
import CanbusAgent.HalFile.Store
import CanbusAgent.PalCipher.Changes
import CanbusAgent.PalCipher.Crc32Division
import CanbusAgent.ProvMsg.Damage
import CanbusAgent.ProvMsg.Nesting
import CanbusAgent.ProvMsg.RoundTrip
import CanbusAgent.ProvMsg.Truncation
import CanbusAgent.ProvMsg.WireForm
import CanbusAgent.Utils.Dump
import CanbusAgent.Utils.HexString
import CanbusAgent.Utils.Memcmp

import RpiCc2520.EventMachine
import RpiCc2520.BytePipe
import RpiCc2520.RadioMessage
import RpiCc2520.RadioSend
import RpiCc2520.RadioSendFraming
import RpiCc2520.RadioLink
import RpiCc2520.RadioLinkAnswer
import RpiCc2520.RadioLinkWake
import RpiCc2520.RadioLinkRetry
import RpiCc2520.RadioDelivery
import RpiCc2520.RadioSequence
import RpiCc2520.RadioControl
import RpiCc2520.RadioReceive
import RpiCc2520.SignalMask
import RpiCc2520.SignalAtomic
import RpiCc2520.GpioInterrupt
import RpiCc2520.GpioSettings
import RpiCc2520.SchedulerSleep
import RpiCc2520.IovChain
import RpiCc2520.Ip6Structs
import RpiCc2520.AlarmTime
import RpiCc2520.AlarmRun
import RpiCc2520.GpioPins
import RpiCc2520.GpioPinFrame
import RpiCc2520.IoManager
import RpiCc2520.DescriptorLoop
import RpiCc2520.HexText
import RpiCc2520.RfidReader
import RpiCc2520.UartReceive
import RpiCc2520.RfidStation
import RpiCc2520.TunReceive
import RpiCc2520.MoteInput
import RpiCc2520.TextWords
import RpiCc2520.CommandLine
import RpiCc2520.TunName
import RpiCc2520.TcpConnection
import RpiCc2520.TcpReconnect
import RpiCc2520.TcpSend
import RpiCc2520.UdpSocket
import RpiCc2520.TunForward
import RpiCc2520.TunWrite
import RpiCc2520.OnesComplement
import RpiCc2520.HopByHop
import RpiCc2520.HopByHopUdp
import RpiCc2520.BorderFilter
import RpiCc2520.TunnelSession
import RpiCc2520.TunnelShutdown
import RpiCc2520.TunnelNames
import RpiCc2520.TunnelNamePool
import RpiCc2520.TunnelServer
import RpiCc2520.TunnelServerNames
import RpiCc2520.TunnelDataPath
import RpiCc2520.AddressBytes
import RpiCc2520.JsonText
import RpiCc2520.JsmnTree
import RpiCc2520.JsmnGrammar
import RpiCc2520.TunnelHandshake
import RpiCc2520.TunnelPrefixReply
import RpiCc2520.TunnelPrefix
import RpiCc2520.TunnelPrefixFile
import RpiCc2520.TunnelPrefixSearch
import RpiCc2520.Ip6Text
import RpiCc2520.TunnelPrefixText
import RpiCc2520.TunnelIsolation
import RpiCc2520.TunnelAddresses
import RpiCc2520.TextTrim
import RpiCc2520.IniParse
import RpiCc2520.IniDocument
import RpiCc2520.DecimalText
import RpiCc2520.ClientConfig
import RpiCc2520.BorderConfig
import RpiCc2520.RepeatedItems
import RpiCc2520.RadioNode
import RpiCc2520.RadioChannel

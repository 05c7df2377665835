import EspAdf.Verified.Machine
import EspAdf.Verified.Rotation
import EspAdf.Verified.Fifo
import EspAdf.Verified.FirstFit
import EspAdf.Verified.Protocol
import EspAdf.Verified.Bank
import EspAdf.Verified.Presses
import EspAdf.Verified.CString
import EspAdf.Verified.Slots
import EspAdf.Verified.Shadow
import EspAdf.Verified.Orbit
import EspAdf.Verified.JsonText
import EspAdf.Verified.Cursor
import EspAdf.Verified.Framing
import EspAdf.Verified.Table
import EspAdf.Verified.Text
import EspAdf.Ports.RingBuf
import EspAdf.Ports.RingBufFifo
import EspAdf.Ports.RingBufTasks
import EspAdf.Ports.RingBufDeadlock
import EspAdf.Ports.RingBufDone
import EspAdf.Ports.RingBufLock
import EspAdf.Ports.EventIface
import EspAdf.Ports.EventMissed
import EspAdf.Ports.AudioElement
import EspAdf.Ports.ElementMoves
import EspAdf.Ports.ElementOpen
import EspAdf.Ports.ElementStop
import EspAdf.Ports.ElementRequest
import EspAdf.Ports.AudioPipeline
import EspAdf.Ports.PipelineHandles
import EspAdf.Ports.PipelineTopology
import EspAdf.Ports.PipelineDangling
import EspAdf.Ports.PipelineConserve
import EspAdf.Ports.RingBufWakeup
import EspAdf.Ports.PipelineLinked
import EspAdf.Ports.PipelineBreakup
import EspAdf.Ports.PipelineReserve
import EspAdf.Ports.PipelineRounds
import EspAdf.Ports.PipelineRun
import EspAdf.Ports.FatfsWriter
import EspAdf.Ports.PassThrough
import EspAdf.Ports.EventMembership
import EspAdf.Ports.PipelineListener
import EspAdf.Ports.PipelineItems
import EspAdf.Ports.HttpPlaylistLines
import EspAdf.Ports.HttpPlaylist
import EspAdf.Ports.PeriphTouch
import EspAdf.Ports.EspPeripherals
import EspAdf.Ports.WifiService
import EspAdf.Ports.ElementDeinit
import EspAdf.Ports.ElementProcess
import EspAdf.Ports.ElementFlags
import EspAdf.Ports.FatfsStream
import EspAdf.Ports.FatfsSession
import EspAdf.Ports.RingBufReturns
import EspAdf.Ports.RingBufPseudo
import EspAdf.Ports.HttpPlaylistTracks
import EspAdf.Ports.HttpPlaylistUri
import EspAdf.Ports.WifiSettings
import EspAdf.Ports.WifiDestroy
import EspAdf.Ports.InputKeyService
import EspAdf.Ports.DuerosService
import EspAdf.Ports.BtKeyControl
import EspAdf.Ports.ElementWaitBuffer
import EspAdf.Ports.HttpOpen
import EspAdf.Ports.HttpOpenReturns
import EspAdf.Ports.I2sMonoFix
import EspAdf.Ports.AdcButton
import EspAdf.Ports.AdcButtonProtocol
import EspAdf.Ports.AdcButtonDebounce
import EspAdf.Ports.AdcButtonChannels
import EspAdf.Ports.AdcButtonList
import EspAdf.Ports.GpioButton
import EspAdf.Ports.TouchRead
import EspAdf.Ports.TouchBaseline
import EspAdf.Ports.PeriphConsole
import EspAdf.Ports.ConsoleDispatch
import EspAdf.Ports.PeriphLed
import EspAdf.Ports.Is31fl3216
import EspAdf.Ports.PeriphIs31fl3216
import EspAdf.Ports.Is31Shift
import EspAdf.Ports.WifiSettingIndex
import EspAdf.Ports.AirkissConfig
import EspAdf.Ports.AwsSigV4
import EspAdf.Ports.AwsSigV4Formula
import EspAdf.Ports.JsonUtils
import EspAdf.Ports.BaiduAccessToken
import EspAdf.Ports.PassChain
import EspAdf.Ports.HttpdSess
import EspAdf.Ports.HttpdServer
import EspAdf.Ports.HttpdPass
import EspAdf.Ports.HttpdContexts
import EspAdf.Ports.HttpdClosures
import EspAdf.Ports.HttpdFraming
import EspAdf.Ports.HttpdUri
import EspAdf.Ports.HttpHeader
import EspAdf.Ports.HttpClientHead
import EspAdf.Ports.HttpClientBody
import EspAdf.Ports.HttpdHeaders
import EspAdf.Ports.HttpdResponse

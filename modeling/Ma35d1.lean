import Ma35d1.Amp.Delivery
import Ma35d1.Amp.Isolation
import Ma35d1.Amp.Lifetime
import Ma35d1.Amp.RoundTrip
import Ma35d1.CanFd.BitRateSearch
import Ma35d1.CanFd.RxBuffers
import Ma35d1.CanFd.TxEvent
import Ma35d1.Clk.PllSearch
import Ma35d1.Dhcp.Run
import Ma35d1.Gmac.Recovery
import Ma35d1.Gmac.TxPathLaw
import Ma35d1.I2c.Law
import Ma35d1.Loader.Boot
import Ma35d1.Loader.Onfi
import Ma35d1.Mmu.Run
import Ma35d1.Pwm.PeriodSearch
import Ma35d1.Rtc.SetTime
import Ma35d1.Sdh.CardClock
import Ma35d1.Sdh.CardInfo
import Ma35d1.Sdh.DiskIo
import Ma35d1.Sdh.TransferLaw
import Ma35d1.Spi.BusClock
import Ma35d1.Tftp.ClientRun
import Ma35d1.Tftp.ServerRun
import Ma35d1.Tsi.AesStreams
import Ma35d1.Tsi.Command
import Ma35d1.Tsi.HexReg
import Ma35d1.Tsi.Sha256Stream
import Ma35d1.Uart.BaudRate
import Ma35d1.UsbDevice.Control
import Ma35d1.UsbDevice.HidTransferLaw
import Ma35d1.UsbDevice.Transaction
import Ma35d1.UsbDevice.VideoTask
import Ma35d1.UsbHost.AltSetting
import Ma35d1.UsbHost.Cdc.Ownership
import Ma35d1.UsbHost.Core.ParseConfig
import Ma35d1.UsbHost.DmaSearch
import Ma35d1.UsbHost.Ehci.IsoAccount
import Ma35d1.UsbHost.Ehci.IsoInterrupt
import Ma35d1.UsbHost.Ehci.Lifecycle
import Ma35d1.UsbHost.Hid.Decoding
import Ma35d1.UsbHost.Hid.Fidelity
import Ma35d1.UsbHost.Hid.Ownership
import Ma35d1.UsbHost.HubStatus
import Ma35d1.UsbHost.HwUnits
import Ma35d1.UsbHost.Msc.Balance
import Ma35d1.UsbHost.Msc.Truthful
import Ma35d1.UsbHost.Ohci.Failure
import Ma35d1.UsbHost.Topology.Addresses
import Ma35d1.UsbHost.Uac.Driver
import Ma35d1.UsbHost.Uac.StreamsLaw
import Ma35d1.UsbHost.Uvc.Assembly
import Ma35d1.UsbHost.Uvc.StreamLaw

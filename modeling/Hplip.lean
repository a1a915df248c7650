import Hplip.Hpcups.Mode3
import Hplip.Hpcups.ModeDeltaPlus
import Hplip.Hpcups.Mode10
import Hplip.Hpcups.Mode9
import Hplip.Hpcups.CommonDefinitions
import Hplip.Hpcups.Encapsulator
import Hplip.Hpcups.Halftoner
import Hplip.Hpcups.ErrorDiffusion
import Hplip.Hpcups.PlaneIndependence
import Hplip.Hpcups.Pcl3
import Hplip.Hpcups.ModeJbig
import Hplip.Lib.Nibble
import Hplip.Pcard.Fat
import Hplip.Pcard.FatTable
import Hplip.Lib.Chain
import Hplip.Pcard.FatDelete
import Hplip.Ip.Ipmain
import Hplip.Ip.Discard
import Hplip.Ip.Rounds
import Hplip.Ip.InputPosition
import Hplip.Ip.FaxDecode
import Hplip.Lib.Bits
import Hplip.Lib.Scan
import Hplip.Ip.FaxPixels
import Hplip.Ip.FaxWords
import Hplip.Ip.FaxSentinel
import Hplip.Lib.RowCoding
import Hplip.Ip.FaxRows
import Hplip.Ip.FaxFetch
import Hplip.Ip.FaxBounds
import Hplip.Hpmud.DeviceId
import Hplip.Hpmud.Transport
import Hplip.Ip.Scale
import Hplip.Ip.ScaleBlend
import Hplip.Hpmud.Acts
import Hplip.Hpmud.Chunking
import Hplip.Hpmud.Credit
import Hplip.Hpmud.Delivery
import Hplip.Ip.RowPipeline
import Hplip.Ip.RowRounds
import Hplip.Ip.RowSession
import Hplip.Hpcups.Job
import Hplip.Pcard.PhotoCard
import Hplip.Sane.Http
import Hplip.Sane.Mfpdtf
import Hplip.Sane.Pml
import Hplip.Sane.Scl
import Hplip.Hpcups.LJZjStream
import Hplip.Sane.MfpdtfReader
import Hplip.Hpcups.HalftonerDelivery
import Hplip.Hpcups.Mode10Sentinel
import Hplip.Hpcups.Mode2
import Hplip.Hpcups.ModeDeltaPlusLimit
import Hplip.Hpcups.ZjsChunks
import Hplip.Hpmud.ModelNames
import Hplip.Ip.JpegBits
import Hplip.Ip.JpegBlocks
import Hplip.Ip.JpegFile
import Hplip.Ip.JpegScan
import Hplip.Ip.JpegHeader
import Hplip.Ip.JpegHeaderSafe
import Hplip.Ip.Crop
import Hplip.Ip.FaxModes
import Hplip.Ip.Pad
import Hplip.Ip.Pcx
import Hplip.Ip.PcxRoundTrip
import Hplip.Ip.Tiff
import Hplip.Ip.TiffFile
import Hplip.Ip.TiffOrder
import Hplip.Pcard.FatFailure
import Hplip.Pcard.FatRead
import Hplip.Pcard.FatScan
import Hplip.Ip.FaxConceal
import Hplip.Ip.FaxRoundTrip
import Hplip.Ip.FaxPage
import Hplip.Lib.Strtol
import Hplip.Lib.Stores
import Hplip.Hpmud.PmlOid
import Hplip.Hpmud.PmlGet
import Hplip.Hpmud.Writing
import Hplip.Ip.GrayToBi
import Hplip.Ip.GrayToBiRow
import Hplip.Ip.ChangeBpp
import Hplip.Ip.ChangeBppTrip
import Hplip.Ip.HorizScale
import Hplip.Ip.ScaleIdentity
import Hplip.Ip.Rotate
import Hplip.Ip.RotateStrip
import Hplip.Ip.RotateRuns
import Hplip.Ip.RotatePixels
import Hplip.Ip.RotateCrop
import Hplip.Sane.PmlValues
import Hplip.Hpmud.ModelAttributes
import Hplip.Sane.MfpdtfChannel
import Hplip.Discovery.Mdns
import Hplip.Sane.Unchunk
import Hplip.Hpijs.TiffPages
import Hplip.Pcard.PhotoCardFile
import Hplip.Base.ParseDeviceUri
import Hplip.Base.ParseDeviceId
import Hplip.Base.ParseSStatus
import Hplip.Base.ColumnWrap
import Hplip.Base.PmlData
import Hplip.Base.ParseStatus
import Hplip.Base.PageRange
import Hplip.Base.XmlDict
import Hplip.Ip.JpegLookup
import Hplip.Ip.JpegDht
import Hplip.Ip.JpegFix
import Hplip.Ip.JpegFixConvert
import Hplip.Ip.JpegUpsample
import Hplip.Ip.JpegRowLoad
import Hplip.Hpcups.LidilCompress
import Hplip.Hpcups.BlackRaster
import Hplip.Hpcups.ColorMatcher
import Hplip.Hpijs.FaxPage

import Ppn.PublicMetadata.Bytes
import Ppn.PublicMetadata.Serialize
import Ppn.PublicMetadata.Absl
import Ppn.PublicMetadata.Fingerprint
import Ppn.Krypton.IpSecPacketPool
import Ppn.Krypton.KryptonService
import Ppn.Krypton.ControlHandler

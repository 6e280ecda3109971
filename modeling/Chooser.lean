import Chooser.UploadFaults
import Chooser.FlashDownload
import Chooser.RoundTrip
import Chooser.Durability
import Chooser.FileIdxJson
import Chooser.RowDelete
import Chooser.DownloadSession
import Chooser.DeleteIndex
import Chooser.IndexSession
import Chooser.Lib.FlashLog
import Chooser.UploadDiscipline
import Chooser.UploadOutcome
import Chooser.Boot
import Chooser.Lib.Ring
import Chooser.LogDownload
import Chooser.Recovery
import Chooser.Attachment
import Chooser.Charging
import Chooser.JsonEsc
import Chooser.Lib.HeapRecord
import Chooser.SessionRecord
import Chooser.Dhcps.Access
import Chooser.Lifetime
import Chooser.Dhcps.Thread
import Chooser.PowerOn
import Chooser.WebPage

import Czmq.Zargs
import Czmq.Zarmour.LineBreaks
import Czmq.Zauth.Decision
import Czmq.Zcert.Forgery
import Czmq.Zcert.Metadata
import Czmq.Zchunk.Calls
import Czmq.Zconfig.Comments
import Czmq.Zdir.Diff
import Czmq.Zfile.Readln
import Czmq.Zgossip.Circulation
import Czmq.Zgossip.Wire
import Czmq.Zhttp.Match
import Czmq.Zlist.FreeFn
import Czmq.Zlistx.Pack
import Czmq.Zloop.Failing
import Czmq.Zloop.Snapshot
import Czmq.Zloop.Stop
import Czmq.Zloop.Tickets
import Czmq.Zloop.TimerPass
import Czmq.Zmsg.Bounds
import Czmq.Zmsg.File
import Czmq.Zosc.Wire
import Czmq.Zsock.Absent
import Czmq.Zsock.Bind
import Czmq.Zsock.Delivery
import Czmq.Zsys.Progress
import Czmq.Ztrie.Completeness
import Czmq.Ztrie.Removal
